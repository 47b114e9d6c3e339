import Cordis.Proof.Committed
import Cordis.Proof.DeadScope
import Cordis.Proof.Placement

/-!
# The Scope tree stays well formed

Parents are older than their children, so following parents ends, and it ends at the root. A Scope
that is not `Disposed` is in the list of its parent, a Fiber in the list of its Scope until its
disposal has come to the index cleanup. Only the garbage collector can break this, when it takes a
Scope away from above one that was disposed over a Fiber.
-/

namespace Cordis

open Machine

/-- The disposal of the Fiber has taken it off the list of its Scope; the section that writes
`Disposed` is outstanding. -/
def FiberCell.Unlisted (c : FiberCell) : Prop :=
  ∃ result, c.worker = some (.indexed result (some .Disposed) false)

theorem unlisted_step {c c' : FiberCell} {a : FiberLabel} (hsound : c.Sound) (hc : c.Unlisted)
    (h : c.step a = some c') (hin : c'.inArena = true) :
    c'.inner.state = .Disposed ∨ c'.Unlisted := by
  obtain ⟨result, hw⟩ := hc
  have hrunning : c.inner.disposal.phase.running = true := hsound.consistent.running _ hw
  have hkept : c'.worker = c.worker → c'.Unlisted := fun heq => ⟨result, heq.trans hw⟩
  have hmove := step_move h
  generalize hk : c'.control = k at hmove
  have hworker : c'.worker = k.worker := congrArg Control.worker hk
  cases hmove with
  | restart s' _ hcomplete =>
    rw [hcomplete] at hrunning
    contradiction
  | requested w p a _ hidle =>
    rw [hidle] at hrunning
    contradiction
  | worked pc pc' _ _ hwas hnext =>
    rw [hw] at hwas
    cases hwas
    exact absurd rfl (hnext.unfinished result (some .Disposed) false)
  | gaveUp pc _ hgone =>
    have := (step_same h).arena hin
    rw [hgone] at this
    contradiction
  | finalized r t b hwas =>
    rw [hw] at hwas
    cases hwas
    exact .inl (congrArg Control.state hk)
  | _ => exact .inr (hkept hworker)

/-- Child `x` is still to be visited, or awaited, or the Scope will be `Terminated`. -/
def ScopePc.Owes (x : ScopeId) : ScopePc → Prop
  | .copying => True
  | .visiting t | .fiberSeen t _ | .fiberFound t _ | .fiberWaiting t _ _ | .fiberFailed t _ _ =>
    t.terminated = true ∨ x ∈ t.children
  | .childWaiting t child | .childFailed t child _ => t.terminated = true ∨ x = child ∨ x ∈ t.children
  | .finished _ terminated => terminated = true

namespace Runtime

variable {rt rt' : Runtime} {l : RuntimeLabel} {s : ScopeId} {f : FiberId}

/-- A pass of the garbage collector removes what it can in one section; below Scope `s` it has done so. -/
def SweptBelow (rt : Runtime) (s : ScopeId) : Prop :=
  ∀ x < rt.nextScope, ∀ n ∈ rt.node x, n.parent = some s → ¬ (n.disposed = true ∧ n.children = [] ∧ n.fibers = [])

/-- No Scope below `s` has become `Disposed` over a Fiber. -/
def EmptyBelow (rt : Runtime) (s : ScopeId) : Prop :=
  ∀ x < rt.nextScope, ∀ n ∈ rt.node x, n.parent = some s → n.disposed = true → n.fibers = []

instance (rt : Runtime) (s : ScopeId) : Decidable (rt.SweptBelow s) := by
  unfold SweptBelow
  infer_instance

instance (rt : Runtime) (s : ScopeId) : Decidable (rt.EmptyBelow s) := by
  unfold EmptyBelow
  infer_instance

/-- `run_reload_transaction` has created its staging Scope under the target, and the garbage collector meets no
Scope that was disposed over a Fiber waiting in it. -/
def Rooted (rt : Runtime) : RuntimeLabel → Prop
  | .commitReload _ _ staging target => ∀ n ∈ rt.node staging, n.parent = some target
  | .sweepScope s => rt.SweptBelow s ∧ rt.EmptyBelow s
  | _ => True

instance (rt : Runtime) (l : RuntimeLabel) : Decidable (rt.Rooted l) := by
  unfold Rooted
  split <;> infer_instance

theorem node_of_scope {r : ScopeCell} (hr : rt.scope s = some r) : rt.node s = some r.node := by
  rw [node, hr]
  rfl

/-- The Scopes of the arena form a tree below the root, and the children lists agree with it. -/
structure Branching (rt : Runtime) : Prop where
  bound : ∀ s n, rt.node s = some n → s < rt.nextScope
  root : ∃ n, rt.node root = some n ∧ n.parent = none
  parents : ∀ s n, rt.node s = some n → s ≠ Runtime.root → ∃ p m, n.parent = some p ∧ p < s ∧
    rt.node p = some m ∧ (n.disposed = false → s ∈ m.children)
  children : ∀ p m, rt.node p = some m → m.children.Nodup ∧ ∀ x ∈ m.children,
    ∃ n, rt.node x = some n ∧ n.parent = some p ∧ n.disposed = false

theorem branching_new : Branching .new where
  bound := fun s n hn => by
    obtain ⟨r, hr, -⟩ := node_eq_some.mp hn
    exact (topology_new.scopes s r hr).1
  root := ⟨⟨none, [], [], false⟩, rfl, rfl⟩
  parents := fun s n hn hs => by
    obtain ⟨r, hr, -⟩ := node_eq_some.mp hn
    simp only [new, if_neg hs] at hr
    contradiction
  children := fun p m hm => by
    obtain ⟨r, hr, -, rfl⟩ := node_eq_some.mp hm
    simp only [new] at hr
    split_ifs at hr
    cases hr
    exact ⟨List.nodup_nil, fun x hx => absurd hx List.not_mem_nil⟩

theorem branching_kept (hb : Branching rt) (hnext : rt'.nextScope = rt.nextScope)
    (hnodes : ∀ x, Option.Rel (fun n n' : Node => n'.parent = n.parent ∧
      n'.disposed = n.disposed ∧ n'.children.Perm n.children) (rt.node x) (rt'.node x)) :
    Branching rt' := by
  have hback : ∀ x n', rt'.node x = some n' → ∃ n, rt.node x = some n ∧ n'.parent = n.parent ∧
      n'.disposed = n.disposed ∧ n'.children.Perm n.children := by
    intro x n' hn'
    have hrel := hnodes x
    rw [hn'] at hrel
    generalize rt.node x = o at hrel ⊢
    cases hrel with
    | some hrel => exact ⟨_, rfl, hrel⟩
  have hforth : ∀ x n, rt.node x = some n → ∃ n', rt'.node x = some n' ∧ n'.parent = n.parent ∧
      n'.disposed = n.disposed ∧ n'.children.Perm n.children := by
    intro x n hn
    have hrel := hnodes x
    rw [hn] at hrel
    generalize rt'.node x = o at hrel ⊢
    cases hrel with
    | some hrel => exact ⟨_, rfl, hrel⟩
  exact {
    bound := fun x n' hn' => by
      obtain ⟨n, hn, -⟩ := hback x n' hn'
      rw [hnext]
      exact hb.bound x n hn
    root := by
      obtain ⟨n, hn, hparent⟩ := hb.root
      obtain ⟨n', hn', hsame, -⟩ := hforth _ n hn
      exact ⟨n', hn', hsame.trans hparent⟩
    parents := fun x n' hn' hx => by
      obtain ⟨n, hn, hparent, hdisposed, -⟩ := hback x n' hn'
      obtain ⟨p, m, hp, hlt, hm, hlisted⟩ := hb.parents x n hn hx
      obtain ⟨m', hm', -, -, hperm⟩ := hforth p m hm
      exact ⟨p, m', hparent.trans hp, hlt, hm', fun hopen =>
        hperm.mem_iff.mpr (hlisted (hdisposed.symm.trans hopen))⟩
    children := fun p m' hm' => by
      obtain ⟨m, hm, -, -, hperm⟩ := hback p m' hm'
      obtain ⟨hnodup, hchildren⟩ := hb.children p m hm
      refine ⟨hperm.nodup_iff.mpr hnodup, fun x hx => ?_⟩
      obtain ⟨n, hn, hp, hopen⟩ := hchildren x (hperm.mem_iff.mp hx)
      obtain ⟨n', hn', hparent, hdisposed, -⟩ := hforth x n hn
      exact ⟨n', hn', hparent.trans hp, hdisposed.trans hopen⟩ }

theorem branching_map (hb : Branching rt) (hnext : rt'.nextScope = rt.nextScope)
    {k : ScopeId → Node → Node} (hnodes : ∀ x, rt'.node x = (rt.node x).map (k x))
    (hk : ∀ x n, (k x n).parent = n.parent ∧ (k x n).disposed = n.disposed ∧
      (k x n).children = n.children) : Branching rt' := by
  refine branching_kept hb hnext fun x => ?_
  rw [hnodes]
  cases rt.node x with
  | none => exact .none
  | some n =>
    obtain ⟨hparent, hdisposed, hchildren⟩ := hk x n
    exact .some ⟨hparent, hdisposed, hchildren ▸ .refl _⟩

theorem branching_created {parent : ScopeId} {m : Node} (hb : Branching rt)
    (hnext : rt'.nextScope = rt.nextScope + 1) (hm : rt.node parent = some m)
    (hnodes : ∀ x, rt'.node x = if x = rt.nextScope then some ⟨some parent, [], [], false⟩
      else (rt.node x).map fun n =>
        if x = parent then { n with children := n.children ++ [rt.nextScope] } else n) :
    Branching rt' := by
  have hparent : parent ≠ rt.nextScope := Nat.ne_of_lt (hb.bound parent m hm)
  have hfresh : ∀ p q, rt.node p = some q → rt.nextScope ∉ q.children := by
    intro p q hq hx
    obtain ⟨n, hn, -⟩ := (hb.children p q hq).2 _ hx
    exact absurd (hb.bound _ n hn) (lt_irrefl _)
  have hcases : ∀ x n', rt'.node x = some n' → x = rt.nextScope ∧ n' = ⟨some parent, [], [], false⟩ ∨
      x ≠ rt.nextScope ∧ ∃ n, rt.node x = some n ∧
        n' = if x = parent then { n with children := n.children ++ [rt.nextScope] } else n := by
    intro x n' hn'
    rw [hnodes] at hn'
    by_cases hx : x = rt.nextScope
    · rw [if_pos hx] at hn'
      cases hn'
      exact .inl ⟨hx, rfl⟩
    · rw [if_neg hx] at hn'
      obtain ⟨n, hn, rfl⟩ := Option.map_eq_some_iff.mp hn'
      exact .inr ⟨hx, n, hn, rfl⟩
  have hforth : ∀ x n, rt.node x = some n → ∃ n', rt'.node x = some n' ∧ n'.parent = n.parent ∧
      n'.disposed = n.disposed ∧ ∀ y ∈ n.children, y ∈ n'.children := by
    intro x n hn
    rw [hnodes, if_neg (Nat.ne_of_lt (hb.bound x n hn)), hn]
    refine ⟨_, rfl, ?_⟩
    split_ifs
    · exact ⟨rfl, rfl, fun y hy => List.mem_append_left _ hy⟩
    · exact ⟨rfl, rfl, fun y hy => hy⟩
  have hnew : rt'.node parent = some { m with children := m.children ++ [rt.nextScope] } := by
    rw [hnodes, if_neg hparent, hm]
    simp
  exact {
    bound := fun x n' hn' => by
      rw [hnext]
      rcases hcases x n' hn' with ⟨rfl, -⟩ | ⟨-, n, hn, -⟩
      · exact Nat.lt_succ_self _
      · exact Nat.lt_succ_of_lt (hb.bound x n hn)
    root := by
      obtain ⟨n, hn, hnone⟩ := hb.root
      obtain ⟨n', hn', hsame, -⟩ := hforth _ n hn
      exact ⟨n', hn', hsame.trans hnone⟩
    parents := fun x n' hn' hx => by
      rcases hcases x n' hn' with ⟨rfl, rfl⟩ | ⟨-, n, hn, rfl⟩
      · exact ⟨parent, _, rfl, hb.bound parent m hm, hnew, fun _ => by simp⟩
      · obtain ⟨p, q, hp, hlt, hq, hlisted⟩ := hb.parents x n hn hx
        obtain ⟨q', hq', -, -, hkept⟩ := hforth p q hq
        refine ⟨p, q', ?_, hlt, hq', fun hopen => hkept x (hlisted ?_)⟩
        · split_ifs <;> exact hp
        · split_ifs at hopen <;> exact hopen
    children := fun p q' hq' => by
      have hold : ∀ q, rt.node p = some q → ∀ x ∈ q.children, ∃ n, rt'.node x = some n ∧
          n.parent = some p ∧ n.disposed = false := by
        intro q hq x hx
        obtain ⟨n, hn, hp, hopen⟩ := (hb.children p q hq).2 x hx
        obtain ⟨n', hn', hparent, hdisposed, -⟩ := hforth x n hn
        exact ⟨n', hn', hparent.trans hp, hdisposed.trans hopen⟩
      rcases hcases p q' hq' with ⟨rfl, rfl⟩ | ⟨-, q, hq, rfl⟩
      · exact ⟨List.nodup_nil, fun x hx => absurd hx List.not_mem_nil⟩
      · split_ifs with hp
        · subst hp
          refine ⟨List.nodup_append.mpr ⟨(hb.children p q hq).1, List.nodup_singleton _,
            fun x hx y hy heq => ?_⟩, fun x hx => ?_⟩
          · rw [List.mem_singleton.mp hy] at heq
            exact hfresh p q hq (heq ▸ hx)
          · rcases List.mem_append.mp hx with hx | hx
            · exact hold q hq x hx
            · rw [List.mem_singleton.mp hx]
              exact ⟨_, by rw [hnodes, if_pos rfl], rfl, rfl⟩
        · exact ⟨(hb.children p q hq).1, hold q hq⟩ }

theorem branching_closed {r : Node} (hb : Branching rt) (hnext : rt'.nextScope = rt.nextScope)
    (hr : rt.node s = some r)
    (hnodes : ∀ x, rt'.node x = (rt.node x).map (Node.closed s r.parent x)) : Branching rt' := by
  have hforth : ∀ x n, rt.node x = some n → rt'.node x = some (Node.closed s r.parent x n) := by
    intro x n hn
    rw [hnodes, hn]
    rfl
  have hkept : ∀ (p : ScopeId) (q : Node), ∀ x ∈ q.children, x ≠ s →
      x ∈ (Node.closed s r.parent p q).children := by
    intro p q x hx hne
    unfold Node.closed
    simp only
    split_ifs
    · simpa [hne] using hx
    · exact hx
  exact {
    bound := fun x n' hn' => by
      rw [hnodes] at hn'
      obtain ⟨n, hn, -⟩ := Option.map_eq_some_iff.mp hn'
      rw [hnext]
      exact hb.bound x n hn
    root := by
      obtain ⟨n, hn, hnone⟩ := hb.root
      exact ⟨_, hforth _ n hn, hnone⟩
    parents := fun x n' hn' hx => by
      rw [hnodes] at hn'
      obtain ⟨n, hn, rfl⟩ := Option.map_eq_some_iff.mp hn'
      obtain ⟨p, q, hp, hlt, hq, hlisted⟩ := hb.parents x n hn hx
      refine ⟨p, _, hp, hlt, hforth p q hq, fun hopen => ?_⟩
      obtain ⟨hopen, hne⟩ : n.disposed = false ∧ x ≠ s := by
        simpa [Node.closed] using hopen
      exact hkept p q x (hlisted hopen) hne
    children := fun p q' hq' => by
      rw [hnodes] at hq'
      obtain ⟨q, hq, rfl⟩ := Option.map_eq_some_iff.mp hq'
      obtain ⟨hnodup, hchildren⟩ := hb.children p q hq
      have hsub : ∀ x ∈ (Node.closed s r.parent p q).children, x ∈ q.children ∧
          (some p = r.parent → x ≠ s) := by
        intro x hx
        unfold Node.closed at hx
        simp only at hx
        split_ifs at hx with hp
        · obtain ⟨hx, hne⟩ := List.mem_filter.mp hx
          exact ⟨hx, fun _ => by simpa using hne⟩
        · exact ⟨hx, fun h => absurd h hp⟩
      refine ⟨?_, fun x hx => ?_⟩
      · unfold Node.closed
        simp only
        split_ifs
        · exact hnodup.filter _
        · exact hnodup
      · obtain ⟨hx, hne⟩ := hsub x hx
        obtain ⟨n, hn, hp, hopen⟩ := hchildren x hx
        refine ⟨_, hforth x n hn, hp, ?_⟩
        have hxs : x ≠ s := by
          rintro rfl
          obtain rfl := Option.some.inj (hr.symm.trans hn)
          exact hne hp.symm rfl
        simp [Node.closed, hopen, hxs] }

theorem branching_swept {r : Node} (hb : Branching rt) (hnext : rt'.nextScope = rt.nextScope)
    (hother : s ≠ Runtime.root) (hr : rt.node s = some r) (hdisposed : r.disposed = true)
    (hlast : ∀ x n, rt.node x = some n → n.parent ≠ some s)
    (hnodes : ∀ x, rt'.node x = if x = s then none else rt.node x) : Branching rt' := by
  have hcases : ∀ x n, rt'.node x = some n ↔ x ≠ s ∧ rt.node x = some n := by
    intro x n
    rw [hnodes]
    split_ifs with hx
    · exact ⟨fun h => absurd h (by simp), fun h => absurd hx h.1⟩
    · exact ⟨fun h => ⟨hx, h⟩, fun h => h.2⟩
  exact {
    bound := fun x n hn => by
      rw [hnext]
      exact hb.bound x n ((hcases x n).mp hn).2
    root := by
      obtain ⟨n, hn, hnone⟩ := hb.root
      exact ⟨n, (hcases _ n).mpr ⟨Ne.symm hother, hn⟩, hnone⟩
    parents := fun x n hn hx => by
      obtain ⟨-, hn⟩ := (hcases x n).mp hn
      obtain ⟨p, m, hp, hlt, hm, hlisted⟩ := hb.parents x n hn hx
      refine ⟨p, m, hp, hlt, (hcases p m).mpr ⟨?_, hm⟩, hlisted⟩
      rintro rfl
      exact hlast x n hn hp
    children := fun p m hm => by
      obtain ⟨-, hm⟩ := (hcases p m).mp hm
      obtain ⟨hnodup, hchildren⟩ := hb.children p m hm
      refine ⟨hnodup, fun x hx => ?_⟩
      obtain ⟨n, hn, hp, hopen⟩ := hchildren x hx
      refine ⟨n, (hcases x n).mpr ⟨?_, hn⟩, hp, hopen⟩
      rintro rfl
      obtain rfl := Option.some.inj (hr.symm.trans hn)
      rw [hdisposed] at hopen
      contradiction }

theorem branching_moved {old staged : FiberId} {staging target : ScopeId} {oldCell c : FiberCell}
    (ht : Topology rt) (hb : Branching rt) (hnext : rt'.nextScope = rt.nextScope)
    (hcut : CutFrom rt old staged staging target oldCell c)
    (hok : ∀ n, rt.node staging = some n → n.parent = some target)
    (hnodes : ∀ x, rt'.node x =
      (rt.node x).map (Node.relocated staging target staged c.inner.childScopes x)) :
    Branching rt' := by
  have hne := hcut.scopes.ne
  obtain ⟨q, hq, -, -, hin⟩ := hcut.scopes.leaves
  obtain ⟨d, hd, -, -, hout⟩ := hcut.scopes.joins
  have hqn : rt.node staging = some q.node := by rw [node, hq]; rfl
  have hdn : rt.node target = some d.node := by rw [node, hd]; rfl
  -- the child Scopes that move hang below the staging Scope
  have hmoved : ∀ x ∈ c.inner.childScopes, ∃ n, rt.node x = some n ∧ n.parent = some staging ∧
      n.disposed = false ∧ staging < x := by
    intro x hx
    obtain ⟨n, hn, hp, hopen⟩ := (hb.children staging q.node hqn).2 x (hin x hx)
    refine ⟨n, hn, hp, hopen, ?_⟩
    have hroot : x ≠ Runtime.root := by
      rintro rfl
      obtain ⟨m, hm, hnone⟩ := hb.root
      obtain rfl := Option.some.inj (hn.symm.trans hm)
      rw [hnone] at hp
      contradiction
    obtain ⟨p, m, hp', hlt, -⟩ := hb.parents x n hn hroot
    obtain rfl : staging = p := by simpa [hp] using hp'
    exact hlt
  have hbelow : target < staging := by
    have hroot : staging ≠ Runtime.root := by
      rintro rfl
      obtain ⟨m, hm, hnone⟩ := hb.root
      rw [hok m hm] at hnone
      contradiction
    obtain ⟨p, m, hp, hlt, -⟩ := hb.parents staging q.node hqn hroot
    obtain rfl : target = p := by simpa [hok q.node hqn] using hp
    exact hlt
  have hforth : ∀ x n, rt.node x = some n → rt'.node x =
      some (n.relocated staging target staged c.inner.childScopes x) := by
    intro x n hn
    rw [hnodes, hn]
    rfl
  have hchildren : ∀ p m x, x ∈ (Node.relocated staging target staged c.inner.childScopes p
      m).children ↔ if p = target then x ∈ m.children ∨ x ∈ c.inner.childScopes
        else x ∈ m.children ∧ (p = staging → x ∉ c.inner.childScopes) := by
    intro p m x
    simp only [Node.relocated]
    by_cases hp : p = target
    · have hps : p ≠ staging := fun h => hne (h.symm.trans hp)
      simp [hp, Ne.symm hne]
    · by_cases hps : p = staging <;> simp [hp, hps, hne]
  exact {
    bound := fun x n' hn' => by
      rw [hnodes] at hn'
      obtain ⟨n, hn, -⟩ := Option.map_eq_some_iff.mp hn'
      rw [hnext]
      exact hb.bound x n hn
    root := by
      obtain ⟨n, hn, hnone⟩ := hb.root
      refine ⟨_, hforth _ n hn, ?_⟩
      have hroot : Runtime.root ∉ c.inner.childScopes := by
        intro hx
        obtain ⟨m, hm, hp, -⟩ := hmoved _ hx
        obtain rfl := Option.some.inj (hn.symm.trans hm)
        rw [hnone] at hp
        contradiction
      exact (if_neg hroot).trans hnone
    parents := fun x n' hn' hx => by
      rw [hnodes] at hn'
      obtain ⟨n, hn, rfl⟩ := Option.map_eq_some_iff.mp hn'
      by_cases hchild : x ∈ c.inner.childScopes
      · obtain ⟨-, -, -, -, hlt⟩ := hmoved x hchild
        refine ⟨target, _, if_pos hchild, hbelow.trans hlt, hforth target d.node hdn, fun _ => ?_⟩
        rw [hchildren, if_pos rfl]
        exact .inr hchild
      · obtain ⟨p, m, hp, hlt, hm, hlisted⟩ := hb.parents x n hn hx
        refine ⟨p, _, (if_neg hchild).trans hp, hlt, hforth p m hm, fun hopen => ?_⟩
        rw [hchildren]
        split_ifs
        · exact .inl (hlisted hopen)
        · exact ⟨hlisted hopen, fun _ => hchild⟩
    children := fun p m' hm' => by
      rw [hnodes] at hm'
      obtain ⟨m, hm, rfl⟩ := Option.map_eq_some_iff.mp hm'
      obtain ⟨hnodup, hlist⟩ := hb.children p m hm
      refine ⟨?_, fun x hx => ?_⟩
      · simp only [Node.relocated]
        by_cases hp : p = target
        · subst hp
          obtain rfl := Option.some.inj (hm.symm.trans hdn)
          rw [if_pos rfl, if_neg (Ne.symm hne)]
          refine List.nodup_append.mpr ⟨hnodup, (ht.children staged c hcut.stagedFiber).1,
            fun x hx y hy heq => ?_⟩
          exact hout y hy (heq ▸ hx)
        · rw [if_neg hp]
          split_ifs
          · exact hnodup.filter _
          · exact hnodup
      · have hkept : x ∈ m.children → x ∉ c.inner.childScopes →
            ∃ n, rt'.node x = some n ∧ n.parent = some p ∧ n.disposed = false := by
          intro hx hchild
          obtain ⟨n, hn, hp, hopen⟩ := hlist x hx
          exact ⟨_, hforth x n hn, (if_neg hchild).trans hp, hopen⟩
        -- a Scope listed elsewhere does not hang below the staging Scope
        have happart : x ∈ m.children → p ≠ staging → x ∉ c.inner.childScopes := by
          intro hx hps hchild
          obtain ⟨n, hn, hp, -⟩ := hlist x hx
          obtain ⟨n₁, hn₁, hp₁, -⟩ := hmoved x hchild
          obtain rfl := Option.some.inj (hn.symm.trans hn₁)
          exact hps (by simpa [hp] using hp₁)
        rw [hchildren] at hx
        split_ifs at hx with hp
        · rcases hx with hx | hchild
          · exact hkept hx (happart hx fun h => hne (h.symm.trans hp))
          · obtain ⟨n, hn, -, hopen, -⟩ := hmoved x hchild
            exact ⟨_, hforth x n hn, by rw [hp]; exact if_pos hchild, hopen⟩
        · by_cases hps : p = staging
          · exact hkept hx.1 (hx.2 hps)
          · exact hkept hx.1 (happart hx.1 hps) }

/-! ## A closed Scope has no children -/

/-- The worker of a Scope waits for each child before it closes the Scope. -/
structure Emptied (rt : Runtime) : Prop where
  owes : ∀ s r pc, rt.scopes s = some r → r.worker = some pc → ∀ x ∈ r.children, pc.Owes x
  closed : ∀ s r, rt.scopes s = some r → r.state = .Disposed → r.children = []
  faithful : Faithful rt

theorem emptied_new : Emptied .new := by
  have hnew : ∀ s r, new.scopes s = some r → r.worker = none ∧ r.children = [] := by
    intro s r hr
    simp only [new] at hr
    split_ifs at hr
    cases hr
    exact ⟨rfl, rfl⟩
  refine ⟨fun s r pc hr hw => ?_, fun s r hr _ => (hnew s r hr).2, faithful_new⟩
  rw [(hnew s r hr).1] at hw
  cases hw

theorem Branching.open_child {p x : ScopeId} {r q : ScopeCell} (hb : Branching rt) (hr : rt.scope p = some r)
    (hx : x ∈ r.children) (hq : rt.scopes x = some q) : q.state ≠ .Disposed := by
  obtain ⟨n, hn, -, hopen⟩ := (hb.children p r.node (node_of_scope hr)).2 x hx
  obtain ⟨d, hd, -, rfl⟩ := node_eq_some.mp hn
  obtain rfl := Option.some.inj (hq.symm.trans hd)
  exact beq_eq_false_iff_ne.mp hopen

theorem owes_next {r : ScopeCell} {a : ScopeLabel} {pc pc' : ScopePc} {x : ScopeId} (hb : Branching rt)
    (he : Emptied rt) (hr : rt.scope s = some r) (hx : x ∈ r.children) (howes : pc.Owes x)
    (hnext : ScopePc.Next rt r a pc pc') : pc'.Owes x := by
  have hcommitted : ∀ child q, rt.scopes child = some q → q.state = .Disposed → x ≠ child := by
    rintro child q hq hdisposed rfl
    exact hb.open_child hr hx hq hdisposed
  cases hnext with
  | copied => exact .inr hx
  | lost | died => exact rfl
  | childAsked t child last | childMissing t child last =>
    refine howes.imp_right fun hmem => ?_
    obtain ⟨older, heq⟩ := List.getLast?_eq_some_iff.mp last
    rw [heq] at hmem ⊢
    rw [List.dropLast_concat]
    rcases List.mem_append.mp hmem with hold | hlast
    · exact .inr hold
    · exact .inl (List.mem_singleton.mp hlast)
  | fiberSkipped | fiberFound => exact howes
  | exhausted t children =>
    refine howes.resolve_right fun hmem => ?_
    rw [children] at hmem
    cases hmem
  | childOk t child q o record published ok =>
    refine howes.imp_right fun hmem => hmem.resolve_left ?_
    exact hcommitted child q record (he.faithful child q o record published ok)
  | childErr => exact howes
  | childReread t child e committed reread =>
    cases hterminated : (t.failed .ChildScopeCleanup ("child scope " ++ toString child) e committed).terminated with
    | true => exact .inl hterminated
    | false =>
      simp only [Traversal.failed, Bool.or_eq_false_iff, Bool.not_eq_false'] at hterminated
      obtain ⟨⟨hclean, hdisposed⟩, -⟩ := hterminated
      obtain ⟨q, hq, hstate⟩ := (Option.any_eq_true _ _).mp (reread.symm.trans hdisposed)
      refine .inr ((howes.resolve_left (by simp [hclean])).resolve_left ?_)
      exact hcommitted child q (scope_eq_some.mp hq).1 (beq_iff_eq.mp hstate)
  | fiberHere | fiberGone | fiberCalled | fiberRefused | fiberOk | fiberErr => exact howes
  | fiberReread => exact howes.imp_left fun hterminated => by simp [Traversal.failed, hterminated]

theorem emptied_step (ht : Topology rt) (hbusy : Busy rt) (hv : Vouched rt) (hb : Branching rt) (he : Emptied rt)
    (h : rt.step l = some rt') : Emptied rt' where
  owes := fun s r' pc' hr' hw x hx => by
    rcases step_turn ht hbusy h hr' with ⟨-, -, hblank⟩ | ⟨r, hr, hframe | hopened |
      ⟨a, pc, pc₁, -, hwas, hnext, hat⟩ | ⟨result, terminated, -, -, hfinal⟩⟩
    · rw [hblank.worker] at hw
      cases hw
    · rw [hframe.worker] at hw
      have hdisposing := hbusy s r hr (by rw [hw]; rfl)
      exact he.owes s r pc' hr hw x (hframe.children (by rw [hdisposing]; simp) x hx)
    · rw [hopened.worker] at hw
      cases hw
      trivial
    · rw [hat.worker] at hw
      cases hw
      rw [hat.children] at hx
      have hdisposing := hbusy s r hr (by rw [hwas]; rfl)
      have hin := hv.present s r hr (by rw [hdisposing]; simp)
      exact owes_next hb he (scope_eq_some.mpr ⟨hr, hin⟩) hx (he.owes s r pc hr hwas x hx) hnext
    · rw [hfinal.worker] at hw
      cases hw
  closed := fun s r' hr' hdisposed => by
    rcases step_turn ht hbusy h hr' with ⟨-, -, hblank⟩ | ⟨r, hr, hframe | hopened |
      ⟨a, pc, pc₁, -, -, -, hat⟩ | ⟨result, terminated, -, hwas, hfinal⟩⟩
    · rw [hblank.state] at hdisposed
      cases hdisposed
    · rw [hframe.state] at hdisposed
      refine List.eq_nil_iff_forall_not_mem.mpr fun x hx => ?_
      have hold := hframe.children (by rw [hdisposed]; simp) x hx
      rw [he.closed s r hr hdisposed] at hold
      cases hold
    · rw [hopened.disposing] at hdisposed
      cases hdisposed
    · rw [hat.children]
      exact he.closed s r hr (hat.state ▸ hdisposed)
    · have hdisposing := hbusy s r hr (by rw [hwas]; rfl)
      rw [hfinal.state, if_pos (hv.present s r hr (by rw [hdisposing]; simp))] at hdisposed
      cases terminated with
      | true => cases hdisposed
      | false =>
        -- the worker owed every child a visit
        refine List.eq_nil_iff_forall_not_mem.mpr fun x hx => ?_
        exact Bool.false_ne_true (he.owes s r _ hr hwas x (hfinal.children x hx))
  faithful := faithful_step ht hbusy he.faithful h

/-- Where no Scope below was disposed over a Fiber, a Scope that can be swept is the parent of none. -/
theorem parentless_of_empty {m : Node} (hb : Branching rt) (he : Emptied rt) (hm : rt.node s = some m)
    (hlist : m.children = []) (hswept : rt.SweptBelow s) (hempty : rt.EmptyBelow s) (x : ScopeId) (n : Node)
    (hn : rt.node x = some n) : n.parent ≠ some s := by
  intro hparent
  have hx : x ≠ Runtime.root := by
    rintro rfl
    obtain ⟨n', hn', hnone⟩ := hb.root
    obtain rfl := Option.some.inj (hn.symm.trans hn')
    rw [hnone] at hparent
    cases hparent
  obtain ⟨p, m', hp, -, hm', hlisted⟩ := hb.parents x n hn hx
  obtain rfl := Option.some.inj (hp.symm.trans hparent)
  obtain rfl := Option.some.inj (hm.symm.trans hm')
  cases hdisposed : n.disposed with
  | false =>
    have hin := hlisted hdisposed
    rw [hlist] at hin
    cases hin
  | true =>
    have hlt := hb.bound x n hn
    obtain ⟨r, hr, -, rfl⟩ := node_eq_some.mp hn
    have hchildren := he.closed x r hr (beq_iff_eq.mp hdisposed)
    exact hswept x hlt _ hn hparent ⟨hdisposed, hchildren, hempty x hlt _ hn hparent hdisposed⟩

theorem branching_step (ht : Topology rt) (hbusy : Busy rt) (hb : Branching rt) (he : Emptied rt)
    (hok : rt.Rooted l) (h : rt.step l = some rt') : Branching rt' := by
  cases step_reshapes ht hbusy h with
  | kept hnext hnodes =>
    refine branching_kept hb hnext fun x => ?_
    have hrel := hnodes x
    generalize rt.node x = o at hrel ⊢
    generalize rt'.node x = o' at hrel ⊢
    cases hrel with
    | none => exact .none
    | some hsame => exact .some ⟨hsame.parent, hsame.disposed, hsame.children⟩
  | created parent _ q _ hnext hq _ hnodes =>
    exact branching_created hb hnext (show rt.node parent = some q.node by rw [node, hq]; rfl) hnodes
  | closed s r _ _ hnext hr _ hnodes =>
    exact branching_closed hb hnext (show rt.node s = some r.node by rw [node, hr]; rfl) hnodes
  | listed _ _ _ _ _ hnext hnodes =>
    exact branching_map hb hnext (k := fun x n => if x = _ then _ else n) hnodes fun x n => by
      split_ifs <;> exact ⟨rfl, rfl, rfl⟩
  | delisted f _ scope _ _ _ hnext _ _ _ hnodes =>
    exact branching_map hb hnext hnodes fun x n => by
      unfold Node.delisted
      split_ifs <;> exact ⟨rfl, rfl, rfl⟩
  | forgotten _ _ hnext _ hnodes =>
    exact branching_map hb hnext (k := fun _ n => { n with fibers := _ }) hnodes
      fun x n => ⟨rfl, rfl, rfl⟩
  | swept s n hlabel hnext hother hr hdisposed hchildren _ hnodes =>
    subst hlabel
    exact branching_swept hb hnext hother hr hdisposed (parentless_of_empty hb he hr hchildren hok.1 hok.2) hnodes
  | moved old staged staging target oldCell c hlabel hnext hcut _ hnodes =>
    subst hlabel
    exact branching_moved ht hb hnext hcut (fun n hn => hok n hn) hnodes

/-! ## The lists of Fibers -/

/-- A Fiber is listed at most once, in its own Scope, and it is listed there until its disposal has
come to the index cleanup. -/
structure Listing (rt : Runtime) : Prop where
  fibers : ∀ s n, rt.node s = some n → n.fibers.Nodup ∧
    ∀ f ∈ n.fibers, ∀ c, rt.fibers f = some c → c.inner.scope = s
  listed : ∀ f c, rt.fiber f = some c → (∃ n, rt.node c.inner.scope = some n ∧ f ∈ n.fibers) ∨
    c.inner.state = .Disposed ∨ c.Unlisted

theorem listing_new : Listing .new where
  fibers := fun s n hn => by
    obtain ⟨r, hr, -, rfl⟩ := node_eq_some.mp hn
    simp only [new] at hr
    split_ifs at hr
    cases hr
    exact ⟨List.nodup_nil, fun x hx => absurd hx List.not_mem_nil⟩
  listed := fun f c h => by cases h

theorem step_home {c c' : FiberCell} (ht : Topology rt) (h : rt.step l = some rt')
    (hc : rt.fibers f = some c) (hc' : rt'.fibers f = some c') :
    c'.inner.scope = c.inner.scope ∨ ∃ old staging target oldCell,
      CutFrom rt old f staging target oldCell c ∧
      rt' = (rt.cutOver ⟨staging, target, f, old, c.inner.childScopes⟩ oldCell c).setFiber old
        (superseded oldCell) := by
  obtain ⟨d, hd, hstep⟩ := (step_follows ht h).cells f c hc
  obtain rfl : c' = d := by simpa [hc'] using hd
  rcases hstep with rfl | ⟨a, ha, hacts⟩
  · exact .inl rfl
  by_cases hcut : ∃ t g, a = .cutover t g
  swap
  · exact .inl (step_scope ha fun t g heq => hcut ⟨t, g, heq⟩)
  obtain ⟨t, g, rfl⟩ := hcut
  cases hacts with
  | own hanswer =>
    rcases answered_plain hanswer with hplain | heq
    · contradiction
    · contradiction
  | cut old staging =>
    rcases commitReload_cases ht h with hsame | ⟨oldCell, e, hfound, hnow⟩
    · rw [hsame.rest, hc] at hc'
      cases hc'
      exact .inl rfl
    · obtain rfl := Option.some.inj (hc.symm.trans hfound.stagedFiber)
      exact .inr ⟨old, staging, t, oldCell, hfound, hnow⟩

theorem step_fresh_node {c' : FiberCell} (ht : Topology rt) (h : rt.step l = some rt')
    (hc' : rt'.fibers f = some c') (hnone : rt.fibers f = none) :
    ∃ n, rt'.node c'.inner.scope = some n ∧ f ∈ n.fibers := by
  obtain ⟨-, -, plugin, p, scope, descriptor, g, staged, rfl, rfl⟩ :=
    (step_follows ht h).fresh f c' hc' hnone
  have hinsert : rt.insertFiber scope plugin descriptor staged = some rt' := h
  obtain ⟨r, hr, hlisted⟩ := (step_fresh_listed ht h hc' hnone).2
  refine ⟨r.node, node_eq_some.mpr ⟨r, hr, ?_, rfl⟩, hlisted⟩
  obtain ⟨q, heq, hscopes⟩ := insertFiber_spec hinsert
  unfold insertFiber at hinsert
  split_ifs at hinsert with hadmitted
  obtain ⟨q, hq, -⟩ := (Option.any_eq_true _ _).mp hadmitted.2
  obtain ⟨hq, hin⟩ := scope_eq_some.mp hq
  have hrecord := hscopes scope
  rw [hq, Option.map_some, if_pos ⟨rfl, hin⟩] at hrecord
  obtain rfl := Option.some.inj (hr.symm.trans hrecord)
  exact hin

theorem listing_kept (ht : Topology rt) (hsound : ∀ f c, rt.fibers f = some c → c.Sound)
    (hl : Listing rt) (h : rt.step l = some rt')
    (hhome : ∀ f c c', rt.fibers f = some c → rt'.fibers f = some c' →
      c'.inner.scope = c.inner.scope)
    (hback : ∀ s n', rt'.node s = some n' → n'.fibers.Nodup ∧ ∀ f ∈ n'.fibers,
      (∃ n, rt.node s = some n ∧ f ∈ n.fibers) ∨ ∀ c', rt'.fibers f = some c' → c'.inner.scope = s)
    (hforth : ∀ s n, rt.node s = some n → ∀ f ∈ n.fibers,
      (∃ n', rt'.node s = some n' ∧ f ∈ n'.fibers) ∨ ∀ c', rt'.fiber f = some c' → c'.Unlisted) :
    Listing rt' where
  fibers := fun s n' hn' => by
    obtain ⟨hnodup, hmembers⟩ := hback s n' hn'
    refine ⟨hnodup, fun f hf c' hc' => ?_⟩
    rcases hmembers f hf with ⟨n, hn, hin⟩ | hnew
    · cases hc : rt.fibers f with
      | some c => exact (hhome f c c' hc hc').trans ((hl.fibers s n hn).2 f hin c hc)
      | none =>
        -- a list has no Fiber that is not there yet
        obtain ⟨r, hr, -, rfl⟩ := node_eq_some.mp hn
        have hlt := (ht.scopes s r hr).2.2.2 f hin
        exact absurd ((step_follows ht h).fresh f c' hc' hc).1 (Nat.ne_of_lt hlt)
    · exact hnew c' hc'
  listed := fun f c' hc' => by
    obtain ⟨hcell', hin'⟩ := fiber_eq_some.mp hc'
    cases hc : rt.fibers f with
    | none => exact .inl (step_fresh_node ht h hcell' hc)
    | some c =>
      obtain ⟨d, hd, hstep⟩ := (step_follows ht h).cells f c hc
      obtain rfl : c' = d := by simpa [hcell'] using hd
      have hin : c.inArena = true := by
        rcases hstep with rfl | ⟨a, ha, -⟩
        · exact hin'
        · exact (step_same ha).arena hin'
      rcases hl.listed f c (fiber_eq_some.mpr ⟨hc, hin⟩) with ⟨n, hn, hlisted⟩ | hdone | hdone
      · rw [hhome f c c' hc hcell']
        rcases hforth _ n hn f hlisted with hkept | hgone
        · exact .inl hkept
        · exact .inr (.inr (hgone c' hc'))
      · rcases hstep with rfl | ⟨a, ha, -⟩
        · exact .inr (.inl hdone)
        · exact .inr (.inl (disposed_move (hsound f c hc) hdone (step_move ha)))
      · rcases hstep with rfl | ⟨a, ha, -⟩
        · exact .inr (.inr hdone)
        · exact .inr (unlisted_step (hsound f c hc) hdone ha hin')

theorem listing_moved {old staged : FiberId} {staging target : ScopeId} {oldCell c : FiberCell}
    (hl : Listing rt) (hcut : CutFrom rt old staged staging target oldCell c)
    (hnow : rt' = (rt.cutOver ⟨staging, target, staged, old, c.inner.childScopes⟩ oldCell
      c).setFiber old (superseded oldCell))
    (hnodes : ∀ x, rt'.node x =
      (rt.node x).map (Node.relocated staging target staged c.inner.childScopes x)) :
    Listing rt' := by
  have hne := hcut.scopes.ne
  obtain ⟨d, hd, -, hout, -⟩ := hcut.scopes.joins
  have hdn : rt.node target = some d.node := by rw [node, hd]; rfl
  -- a Fiber is the staged one, or has the Scope it had
  have hcases : ∀ g e', rt'.fibers g = some e' →
      g = staged ∧ e' = { c with inner := c.inner.cutover target } ∨
      g ≠ staged ∧ ∃ e, rt.fibers g = some e ∧ e'.inner.scope = e.inner.scope ∧
        e'.inArena = e.inArena ∧ e'.inner.state = e.inner.state ∧ e'.worker = e.worker := by
    intro g e' he'
    subst hnow
    by_cases hold : g = old
    · subst hold
      obtain rfl : superseded oldCell = e' := by simpa [setFiber] using he'
      exact .inr ⟨Ne.symm hcut.ne, oldCell, hcut.oldFiber, rfl, rfl, rfl, rfl⟩
    · by_cases hg : g = staged
      · subst hg
        exact .inl ⟨rfl, by simpa [setFiber, cutOver, hold, eq_comm] using he'⟩
      · exact .inr ⟨hg, e', by simpa [setFiber, cutOver, hold, hg] using he', rfl, rfl, rfl, rfl⟩
  have hlist : ∀ s n g, g ∈ (Node.relocated staging target staged c.inner.childScopes s n).fibers ↔
      if s = target then g ∈ n.fibers ∨ g = staged
        else g ∈ n.fibers ∧ (s = staging → g ≠ staged) := by
    intro s n g
    simp only [Node.relocated]
    by_cases hs : s = target
    · simp [hs, Ne.symm hne]
    · by_cases hss : s = staging <;> simp [hs, hss, hne]
  exact {
    fibers := fun s n' hn' => by
      rw [hnodes] at hn'
      obtain ⟨n, hn, rfl⟩ := Option.map_eq_some_iff.mp hn'
      obtain ⟨hnodup, hmembers⟩ := hl.fibers s n hn
      refine ⟨?_, fun g hg e' he' => ?_⟩
      · simp only [Node.relocated]
        by_cases hs : s = target
        · subst hs
          obtain rfl := Option.some.inj (hn.symm.trans hdn)
          rw [if_pos rfl, if_neg (Ne.symm hne)]
          refine List.nodup_append.mpr ⟨hnodup, List.nodup_singleton staged, fun x hx y hy heq => ?_⟩
          rw [List.mem_singleton.mp hy] at heq
          exact hout (heq ▸ hx)
        · rw [if_neg hs]
          split_ifs
          · exact hnodup.filter _
          · exact hnodup
      · rw [hlist] at hg
        rcases hcases g e' he' with ⟨rfl, rfl⟩ | ⟨hg', e, he, hscope, -⟩
        · split_ifs at hg with hs
          · exact hs.symm
          · -- the staged Fiber was listed in the staging Scope only
            have hstaging := hmembers g hg.1 c hcut.stagedFiber
            exact absurd rfl (hg.2 (hstaging.symm.trans hcut.scope.symm))
        · rw [hscope]
          split_ifs at hg
          · exact hmembers g (hg.resolve_right hg') e he
          · exact hmembers g hg.1 e he
    listed := fun g e' he' => by
      obtain ⟨hcell', hin'⟩ := fiber_eq_some.mp he'
      rcases hcases g e' hcell' with ⟨rfl, rfl⟩ | ⟨hg, e, he, hscope, harena, hstate, hworker⟩
      · refine .inl ⟨_, (hnodes target).trans (by rw [hdn]; rfl), ?_⟩
        rw [hlist, if_pos rfl]
        exact .inr rfl
      · rw [hscope, hstate]
        rcases hl.listed g e (fiber_eq_some.mpr ⟨he, harena.symm.trans hin'⟩) with ⟨n, hn, hin⟩ |
          hdone | ⟨result, hdone⟩
        · refine .inl ⟨_, (hnodes _).trans (by rw [hn]; rfl), ?_⟩
          rw [hlist]
          split_ifs
          · exact .inl hin
          · exact ⟨hin, fun _ => hg⟩
        · exact .inr (.inl hdone)
        · exact .inr (.inr ⟨result, hworker.trans hdone⟩) }

theorem listing_step (ht : Topology rt) (hbusy : Busy rt)
    (hsound : ∀ f c, rt.fibers f = some c → c.Sound) (hl : Listing rt) (h : rt.step l = some rt') :
    Listing rt' := by
  by_cases hcut : ∃ old staged staging target oldCell c,
      CutFrom rt old staged staging target oldCell c ∧
      rt' = (rt.cutOver ⟨staging, target, staged, old, c.inner.childScopes⟩ oldCell c).setFiber old
        (superseded oldCell)
  · obtain ⟨old, staged, staging, target, oldCell, c, hfound, hnow⟩ := hcut
    refine listing_moved hl hfound hnow fun x => ?_
    rw [hnow]
    exact node_cutOver _ oldCell c (superseded oldCell) x
  have hhome : ∀ f c c', rt.fibers f = some c → rt'.fibers f = some c' →
      c'.inner.scope = c.inner.scope := by
    intro f c c' hc hc'
    rcases step_home ht h hc hc' with hsame | ⟨old, staging, target, oldCell, hfound, hnow⟩
    · exact hsame
    · exact absurd ⟨old, f, staging, target, oldCell, c, hfound, hnow⟩ hcut
  -- the nodes keep their lists of Fibers
  have hplain : (∀ x n', rt'.node x = some n' → n'.fibers = [] ∨
        ∃ n, rt.node x = some n ∧ n'.fibers.Perm n.fibers) →
      (∀ x n, rt.node x = some n → n.fibers = [] ∨
        ∃ n', rt'.node x = some n' ∧ n'.fibers.Perm n.fibers) → Listing rt' := by
    intro hback hforth
    refine listing_kept ht hsound hl h hhome (fun s n' hn' => ?_) fun s n hn f hf => .inl ?_
    · rcases hback s n' hn' with hnil | ⟨n, hn, hperm⟩
      · rw [hnil]
        exact ⟨List.nodup_nil, fun f hf => absurd hf List.not_mem_nil⟩
      · exact ⟨hperm.nodup_iff.mpr (hl.fibers s n hn).1,
          fun f hf => .inl ⟨n, hn, hperm.mem_iff.mp hf⟩⟩
    · rcases hforth s n hn with hnil | ⟨n', hn', hperm⟩
      · rw [hnil] at hf
        exact absurd hf List.not_mem_nil
      · exact ⟨n', hn', hperm.mem_iff.mpr hf⟩
  cases step_reshapes ht hbusy h with
  | moved old staged staging target oldCell c _ _ hfound hnow =>
    exact absurd ⟨old, staged, staging, target, oldCell, c, hfound, hnow⟩ hcut
  | kept _ hnodes =>
    refine hplain (fun x n' hn' => .inr ?_) fun x n hn => .inr ?_
    · have hrel := hnodes x
      rw [hn'] at hrel
      generalize rt.node x = o at hrel ⊢
      cases hrel with
      | some hsame => exact ⟨_, rfl, hsame.fibers⟩
    · have hrel := hnodes x
      rw [hn] at hrel
      generalize rt'.node x = o at hrel ⊢
      cases hrel with
      | some hsame => exact ⟨_, rfl, hsame.fibers⟩
  | created parent _ q _ _ _ _ hnodes =>
    have hsame : ∀ x n, (if x = parent then { n with children := n.children ++ [rt.nextScope] }
        else n : Node).fibers = n.fibers := fun x n => by split_ifs <;> rfl
    refine hplain (fun x n' hn' => ?_) fun x n hn => .inr ?_
    · rw [hnodes] at hn'
      by_cases hx : x = rt.nextScope
      · rw [if_pos hx] at hn'
        cases hn'
        exact .inl rfl
      · rw [if_neg hx] at hn'
        obtain ⟨n, hn, rfl⟩ := Option.map_eq_some_iff.mp hn'
        exact .inr ⟨n, hn, .of_eq (hsame x n)⟩
    · obtain ⟨r, hr, -⟩ := node_eq_some.mp hn
      have hx : x ≠ rt.nextScope := Nat.ne_of_lt (ht.scopes x r hr).1
      exact ⟨_, (hnodes x).trans (by rw [if_neg hx, hn]; rfl), .of_eq (hsame x n)⟩
  | closed s r _ _ _ _ _ hnodes =>
    refine hplain (fun x n' hn' => .inr ?_) fun x n hn => .inr ?_
    · rw [hnodes] at hn'
      obtain ⟨n, hn, rfl⟩ := Option.map_eq_some_iff.mp hn'
      exact ⟨n, hn, .refl _⟩
    · refine ⟨Node.closed s r.parent x n, ?_, .refl _⟩
      rw [hnodes, hn]
      rfl
  | swept s r _ _ _ hr _ _ hempty hnodes =>
    refine hplain (fun x n' hn' => .inr ?_) fun x n hn => ?_
    · rw [hnodes] at hn'
      split_ifs at hn'
      exact ⟨n', hn', .refl _⟩
    · by_cases hx : x = s
      · subst hx
        obtain rfl := Option.some.inj (hn.symm.trans hr)
        exact .inl hempty
      · exact .inr ⟨n, (hnodes x).trans (by rw [if_neg hx, hn]), .refl _⟩
  | listed scope plugin descriptor staged hlabel _ hnodes =>
    have hnone : rt.fibers rt.nextFiber = none := by
      cases hc : rt.fibers rt.nextFiber with
      | none => rfl
      | some c => exact absurd (ht.fibers _ c hc) (lt_irrefl _)
    refine listing_kept ht hsound hl h hhome (fun s n' hn' => ?_) fun s n hn f hf => .inl ?_
    · rw [hnodes] at hn'
      obtain ⟨n, hn, rfl⟩ := Option.map_eq_some_iff.mp hn'
      obtain ⟨hnodup, hmembers⟩ := hl.fibers s n hn
      by_cases hs : s = scope
      · subst hs
        rw [if_pos rfl]
        refine ⟨List.nodup_append.mpr ⟨hnodup, List.nodup_singleton _, fun x hx y hy heq => ?_⟩,
          fun f hf => ?_⟩
        · rw [List.mem_singleton.mp hy] at heq
          obtain ⟨r, hr, -, rfl⟩ := node_eq_some.mp hn
          exact absurd ((ht.scopes s r hr).2.2.2 x hx) (by rw [heq]; exact lt_irrefl _)
        · rcases List.mem_append.mp hf with hf | hf
          · exact .inl ⟨n, hn, hf⟩
          · rw [List.mem_singleton.mp hf]
            refine .inr fun c' hc' => ?_
            obtain ⟨-, -, _, _, _, _, _, _, heq, rfl⟩ :=
              (step_follows ht h).fresh rt.nextFiber c' hc' hnone
            rw [hlabel] at heq
            cases heq
            rfl
      · rw [if_neg hs]
        exact ⟨hnodup, fun f hf => .inl ⟨n, hn, hf⟩⟩
    · refine ⟨_, (hnodes s).trans (by rw [hn]; rfl), ?_⟩
      beta_reduce
      split_ifs
      · exact List.mem_append_left _ hf
      · exact hf
  | delisted g a scope c c' hlabel _ hc hc' hwhy hnodes =>
    refine listing_kept ht hsound hl h hhome (fun s n' hn' => ?_) fun s n hn f hf => ?_
    · rw [hnodes] at hn'
      obtain ⟨n, hn, rfl⟩ := Option.map_eq_some_iff.mp hn'
      unfold Node.delisted
      split_ifs
      · exact ⟨(hl.fibers s n hn).1.filter _,
          fun f hf => .inl ⟨n, hn, (List.mem_filter.mp hf).1⟩⟩
      · exact ⟨(hl.fibers s n hn).1, fun f hf => .inl ⟨n, hn, hf⟩⟩
    · by_cases hfg : f = g
      · subst hfg
        right
        intro d hd
        obtain ⟨hd, hin⟩ := fiber_eq_some.mp hd
        rcases hwhy with ⟨hgone, -⟩ | ⟨rfl, result, target, b, hworker⟩
        · obtain rfl := Option.some.inj (hc'.symm.trans hd)
          rw [hgone] at hin
          contradiction
        · subst hlabel
          obtain ⟨rfl, rfl⟩ := ((hsound f c hc).consistent.faithful _ hworker).2 rfl
          obtain rfl := Option.some.inj ((step_indexCleanup h hc hworker).symm.trans hd)
          exact ⟨result, rfl⟩
      · refine .inl ⟨_, (hnodes s).trans (by rw [hn]; rfl), ?_⟩
        unfold Node.delisted
        split_ifs
        · simpa [hfg] using hf
        · exact hf
  | forgotten g hlabel _ hgone hnodes =>
    refine listing_kept ht hsound hl h hhome (fun s n' hn' => ?_) fun s n hn f hf => ?_
    · rw [hnodes] at hn'
      obtain ⟨n, hn, rfl⟩ := Option.map_eq_some_iff.mp hn'
      exact ⟨(hl.fibers s n hn).1.filter _, fun f hf => .inl ⟨n, hn, (List.mem_filter.mp hf).1⟩⟩
    · by_cases hfg : f = g
      · subst hfg
        right
        intro d hd
        subst hlabel
        have hsame : rt'.fiber f = rt.fiber f := by
          simp only [step, sweepFiber] at h
          split_ifs at h
          cases h
          rfl
        rw [hsame, hgone] at hd
        contradiction
      · exact .inl ⟨_, (hnodes s).trans (by rw [hn]; rfl), by simpa [hfg] using hf⟩

/-! ## Over every run -/

/-- The Scope tree as the arena has it. -/
structure WellFormed (rt : Runtime) : Prop where
  /-- Every Scope but the root has its parent in the arena. -/
  parent : ∀ s r, rt.scope s = some r → s ≠ root → ∃ p q, r.parent = some p ∧ rt.scope p = some q
  /-- Following parents reaches the root, so `ancestry` finds every Scope on the way. -/
  rooted : ∀ s r, rt.scope s = some r →
    ∃ chain, rt.ancestryFrom rt.nextScope s = some chain ∧ chain.getLast? = some root
  /-- A Scope that is not `Disposed` is listed once, by its parent. -/
  scopes : ∀ s r, rt.scope s = some r → s ≠ root → r.state ≠ .Disposed → ∃ p, r.parent = some p ∧
    ∀ q d, rt.scope q = some d → d.children.count s = if q = p then 1 else 0
  /-- A Fiber that is not `Disposed` is listed once, by its Scope, until its disposal has come to the
  index cleanup. -/
  fibers : ∀ f c, rt.fiber f = some c → c.inner.state ≠ .Disposed → ¬ c.Unlisted →
    (∃ r, rt.scope c.inner.scope = some r) ∧
      ∀ s r, rt.scope s = some r → r.fibers.count f = if s = c.inner.scope then 1 else 0

theorem Branching.ancestry (hb : Branching rt) (fuel : Nat) {s : ScopeId} {r : ScopeCell}
    (hr : rt.scope s = some r) (hlt : s < fuel) :
    ∃ chain, rt.ancestryFrom fuel s = some chain ∧ chain.getLast? = some Runtime.root := by
  induction fuel generalizing s r with
  | zero => exact absurd hlt (Nat.not_lt_zero s)
  | succ fuel ih =>
    by_cases hs : s = Runtime.root
    · subst hs
      obtain ⟨n, hn, hnone⟩ := hb.root
      obtain rfl := Option.some.inj ((node_of_scope hr).symm.trans hn)
      refine ⟨[Runtime.root], ?_, rfl⟩
      simp only [ancestryFrom, hr, show r.parent = none from hnone]
    · obtain ⟨p, m, hp, hbelow, hm, -⟩ := hb.parents s r.node (node_of_scope hr) hs
      obtain ⟨q, hq, rfl⟩ := Option.map_eq_some_iff.mp hm
      obtain ⟨chain, hchain, hlast⟩ := ih hq (Nat.lt_of_lt_of_le hbelow (Nat.le_of_lt_succ hlt))
      refine ⟨s :: chain, ?_, ?_⟩
      · simp only [ancestryFrom, hr, show r.parent = some p from hp, hchain, Option.map_some]
      · cases chain with
        | nil => contradiction
        | cons x xs => exact hlast

theorem wellFormed_of (hb : Branching rt) (hl : Listing rt) : WellFormed rt where
  parent := fun s r hr hs => by
    obtain ⟨p, m, hp, -, hm, -⟩ := hb.parents s r.node (node_of_scope hr) hs
    obtain ⟨q, hq, -⟩ := Option.map_eq_some_iff.mp hm
    exact ⟨p, q, hp, hq⟩
  rooted := fun s r hr => hb.ancestry _ hr (hb.bound s r.node (node_of_scope hr))
  scopes := fun s r hr hs hopen => by
    obtain ⟨p, m, hp, -, hm, hlisted⟩ := hb.parents s r.node (node_of_scope hr) hs
    refine ⟨p, hp, fun q d hd => ?_⟩
    obtain ⟨hnodup, hchildren⟩ := hb.children q d.node (node_of_scope hd)
    split_ifs with hq
    · subst hq
      obtain rfl := Option.some.inj (hm.symm.trans (node_of_scope hd))
      refine List.count_eq_one_of_mem hnodup (hlisted ?_)
      exact beq_eq_false_iff_ne.mpr hopen
    · refine List.count_eq_zero.mpr fun hx => hq ?_
      obtain ⟨n, hn, hp', -⟩ := hchildren s hx
      obtain rfl := Option.some.inj ((node_of_scope hr).symm.trans hn)
      exact Option.some.inj (hp'.symm.trans hp)
  fibers := fun f c hc hopen hstays => by
    rcases hl.listed f c hc with ⟨n, hn, hin⟩ | hdone | hdone
    · obtain ⟨r, hr, rfl⟩ := Option.map_eq_some_iff.mp hn
      refine ⟨⟨r, hr⟩, fun s q hq => ?_⟩
      obtain ⟨hnodup, hmembers⟩ := hl.fibers s q.node (node_of_scope hq)
      split_ifs with hs
      · subst hs
        obtain rfl := Option.some.inj (hr.symm.trans hq)
        exact List.count_eq_one_of_mem hnodup hin
      · refine List.count_eq_zero.mpr fun hx => hs ?_
        exact (hmembers f hx c (fiber_eq_some.mp hc).1).symm
    · exact absurd hdone hopen
    · exact absurd hdone hstays

/-- **The Scope tree stays well formed**, in every run in which the garbage collector takes no Scope away from above
one that was disposed over a Fiber. -/
theorem tree_well_formed (h : Reach step Rooted .new rt) : WellFormed rt := by
  have hall : (Topology rt ∧ Busy rt ∧ Vouched rt) ∧ Branching rt ∧ Emptied rt ∧ Listing rt ∧
      ∀ f c, rt.fibers f = some c → c.Sound := by
    refine h.invariant (I := fun rt => (Topology rt ∧ Busy rt ∧ Vouched rt) ∧ Branching rt ∧ Emptied rt ∧
      Listing rt ∧ ∀ f c, rt.fibers f = some c → c.Sound) ⟨⟨topology_new, busy_new, vouched_new⟩, branching_new,
        emptied_new, listing_new, fun f c hc => by cases hc⟩ ?_
    rintro rt l rt' ⟨⟨ht, hbusy, hv⟩, hb, he, hl, hsound⟩ hok hstep
    exact ⟨⟨topology_step ht hstep, busy_step ht hbusy hstep, vouched_step ht hbusy hv hstep⟩,
      branching_step ht hbusy hb he hok hstep, emptied_step ht hbusy hv hb he hstep,
      listing_step ht hbusy hsound hl hstep, (step_evolves ht hstep).sound hsound⟩
  exact wellFormed_of hall.2.1 hall.2.2.2.1

/-- A reload moves a child Scope, which is then disposed and swept. -/
theorem tree_well_formed_reload :
    ∃ rt, Reach step Rooted .new rt ∧ (∃ r, rt.scope 0 = some r ∧ r.children = [1] ∧
      r.fibers = [0, 1]) ∧ rt.scope 2 = none ∧ WellFormed rt := by
  have hrun : ((runIf step Rooted .new (replaced [.provide 1 1 7, .ownScope 1 1] ++
      [.commitReload 0 1 1 0, .disposeScope 2 false, .scope 2 .copy, .scope 2 .visit,
        .scope 2 .finalize, .sweepScope 2])).any fun rt => (rt.scope 0).any (fun r =>
          r.children = [1] ∧ r.fibers = [0, 1]) && (rt.scope 2).isNone) = true := by
    decide +kernel
  obtain ⟨rt, hrt, hrun⟩ := (Option.any_eq_true _ _).mp hrun
  obtain ⟨htarget, hswept⟩ := Bool.and_eq_true_iff.mp hrun
  obtain ⟨r, hr, hlists⟩ := (Option.any_eq_true _ _).mp htarget
  have hreach := reach_of_runIf hrt
  exact ⟨rt, hreach, ⟨r, hr, of_decide_eq_true hlists⟩, Option.isNone_iff_eq_none.mp hswept,
    tree_well_formed hreach⟩

/-- A Scope is disposed with the Fiber in it, whose disposal comes to the index cleanup: the Fiber is in
no list before it is `Disposed`. -/
theorem disposing_fiber_unlisted :
    ∃ rt c, Reach step Rooted .new rt ∧ rt.fiber 0 = some c ∧ c.inner.state = .Disposing ∧
      ∀ s r, rt.scope s = some r → 0 ∉ r.fibers := by
  have hrun : ((runIf step Rooted .new ([.createScope 0 false] ++
      installed 0 1 none ⟨[], [], .Restart⟩ false [] ++
      [.disposeScope 1 false, .scope 1 .copy, .scope 1 .visit, .scope 1 .fiberLookup, .scope 1 .fiberCall] ++
      sections 0 quietRound.dropLast)).any fun rt =>
        (rt.fiber 0).any (fun c => c.inner.state = .Disposing) &&
        (List.range rt.nextScope).all fun s => (rt.scope s).all fun r => 0 ∉ r.fibers) = true := by
    decide +kernel
  obtain ⟨rt, hrt, hrun⟩ := (Option.any_eq_true _ _).mp hrun
  obtain ⟨hcell, hlists⟩ := Bool.and_eq_true_iff.mp hrun
  obtain ⟨c, hc, hstate⟩ := (Option.any_eq_true _ _).mp hcell
  have hreach := reach_of_runIf hrt
  refine ⟨rt, c, hreach, hc, of_decide_eq_true hstate, fun s r hr => ?_⟩
  have hlt := ((topology_reach hreach.weaken).scopes s r (scope_eq_some.mp hr).1).1
  have hlist := List.all_eq_true.mp hlists s (List.mem_range.mpr hlt)
  rw [hr] at hlist
  exact of_decide_eq_true hlist

/-- A Scope is `Disposed` while a Fiber in it waits for a dependency; the garbage collector then takes
the Scope above away. -/
theorem scope_without_parent :
    ∃ rt r, Reach step anyStep .new rt ∧ rt.scope 2 = some r ∧ r.parent = some 1 ∧
      rt.scope 1 = none ∧ rt.ancestryFrom rt.nextScope 2 = none := by
  have hrun : ((run step .new ([.createScope 0 false, .createScope 1 false] ++
      installed 0 0 none ⟨[], [5], .Restart⟩ false [.provide 0 0 5] ++
      installed 1 2 none ⟨[5], [], .Restart⟩ false [] ++
      sections 1 (.callDispose true false false :: quietRound) ++
      [.disposeScope 1 false, .scope 1 .copy, .scope 1 .visit] ++
      [.scope 2 .copy, .scope 2 .visit, .scope 2 .fiberLookup, .scope 2 .fiberCall, .scope 2 .fiberReturned,
        .scope 2 .visit, .scope 2 .finalize] ++
      [.scope 1 .childReturned, .scope 1 .visit, .scope 1 .finalize, .sweepScope 1])).any fun rt =>
        (rt.scope 2).any (fun r => r.parent = some 1) && (rt.scope 1).isNone &&
          (rt.ancestryFrom rt.nextScope 2).isNone) = true := by
    decide +kernel
  obtain ⟨rt, hrt, hrun⟩ := (Option.any_eq_true _ _).mp hrun
  simp only [Bool.and_eq_true] at hrun
  obtain ⟨⟨hscope, hgone⟩, hancestry⟩ := hrun
  obtain ⟨r, hr, hparent⟩ := (Option.any_eq_true _ _).mp hscope
  exact ⟨rt, r, reach_of_run hrt, hr, of_decide_eq_true hparent, Option.isNone_iff_eq_none.mp hgone,
    Option.isNone_iff_eq_none.mp hancestry⟩

/-- Without the two exceptions the tree is not well formed. -/
theorem tree_malformed :
    (∃ rt c, Reach step Rooted .new rt ∧ rt.fiber 0 = some c ∧ c.inner.state = .Disposing ∧
      ∀ s r, rt.scope s = some r → 0 ∉ r.fibers) ∧
    ∃ rt r, Reach step anyStep .new rt ∧ rt.scope 2 = some r ∧ r.parent = some 1 ∧
      rt.scope 1 = none ∧ rt.ancestryFrom rt.nextScope 2 = none :=
  ⟨disposing_fiber_unlisted, scope_without_parent⟩

end Runtime

end Cordis
