import Cordis.Proof.Members
import Cordis.Proof.Traversal

/-!
# What a step does to the Scope tree

Of a Scope that is in the arena the tree knows its parent, its two membership lists and whether it is
`Disposed`. Seven kinds of steps change that: a Scope is created, closed or swept, a Fiber is listed,
taken off a list or forgotten, and a cutover moves a Fiber with its child Scopes.
-/

namespace Cordis

open Machine

/-- What the tree knows of a Scope. -/
structure Node where
  parent : Option ScopeId
  children : List ScopeId
  fibers : List FiberId
  disposed : Bool

/-- The same place in the tree, up to the order of the lists. -/
structure Node.Same (n n' : Node) : Prop where
  parent : n'.parent = n.parent
  children : n'.children.Perm n.children
  fibers : n'.fibers.Perm n.fibers
  disposed : n'.disposed = n.disposed

theorem Node.Same.refl (n : Node) : n.Same n := ⟨rfl, .refl _, .refl _, rfl⟩

/-- The place of Scope `s` after the Fiber and the children moved from `source` to `dest`. -/
def Node.relocated (source dest : ScopeId) (fiber : FiberId) (children : List ScopeId) (s : ScopeId)
    (n : Node) : Node :=
  { n with
    fibers :=
      let fibers := if s = source then n.fibers.filter (· ≠ fiber) else n.fibers
      if s = dest then fibers ++ [fiber] else fibers
    children :=
      let kept := if s = source then n.children.filter (· ∉ children) else n.children
      if s = dest then kept ++ children else kept
    parent := if s ∈ children then some dest else n.parent }

def ScopeCell.node (r : ScopeCell) : Node := ⟨r.parent, r.children, r.fibers, r.state == .Disposed⟩

namespace Runtime

variable {rt rt' : Runtime} {l : RuntimeLabel} {s : ScopeId} {r : ScopeCell}

/-- The place of Scope `s`, as long as it is in the arena. -/
def node (rt : Runtime) (s : ScopeId) : Option Node := (rt.scope s).map (·.node)

theorem node_eq_some {n : Node} :
    rt.node s = some n ↔ ∃ r, rt.scopes s = some r ∧ r.inArena = true ∧ r.node = n := by
  unfold node
  rw [Option.map_eq_some_iff]
  constructor
  · rintro ⟨r, hr, rfl⟩
    exact ⟨r, (scope_eq_some.mp hr).1, (scope_eq_some.mp hr).2, rfl⟩
  · rintro ⟨r, hr, hin, rfl⟩
    exact ⟨r, scope_eq_some.mpr ⟨hr, hin⟩, rfl⟩

theorem node_congr (h : rt'.scopes = rt.scopes) (s : ScopeId) : rt'.node s = rt.node s := by
  unfold node scope
  rw [h]

theorem node_of_map {g : ScopeId → ScopeCell → ScopeCell} {k : ScopeId → Node → Node}
    (hs : ∀ s, rt'.scopes s = (rt.scopes s).map (g s))
    (hin : ∀ s r, rt.scopes s = some r → (g s r).inArena = r.inArena)
    (hk : ∀ s r, rt.scopes s = some r → r.inArena = true → (g s r).node = k s r.node)
    (s : ScopeId) : rt'.node s = (rt.node s).map (k s) := by
  unfold node scope
  rw [hs]
  cases hr : rt.scopes s with
  | none => rfl
  | some r =>
    cases harena : r.inArena with
    | false => simp [Option.filter, hin s r hr, harena]
    | true => simp [Option.filter, hin s r hr, harena, hk s r hr harena]

theorem node_same (h : Option.Rel ScopeCell.Same (rt.scopes s) (rt'.scopes s)) :
    Option.Rel Node.Same (rt.node s) (rt'.node s) := by
  unfold node scope
  generalize rt.scopes s = old at h
  generalize rt'.scopes s = new at h
  cases h with
  | none => exact .none
  | @some r r' hsame =>
    have hin : r'.inArena = r.inArena := by rw [hsame.rest]
    cases harena : r.inArena with
    | false => simp [Option.filter, hin, harena]
    | true =>
      simp only [Option.filter, hin, harena, if_true, Option.map_some]
      have hparent : r'.parent = r.parent := by rw [hsame.rest]
      have hstate : r'.state = r.state := by rw [hsame.rest]
      exact .some ⟨hparent, hsame.children, hsame.fibers,
        congrArg (· == ScopeState.Disposed) hstate⟩

theorem setScope_scopes (hr : rt.scopes s = some r) (q : ScopeCell) (x : ScopeId) :
    (rt.setScope s q).scopes x = (rt.scopes x).map fun r => if x = s then q else r := by
  by_cases hx : x = s
  · subst hx
    simp [setScope, hr]
  · simp [setScope, hx]

theorem node_setScope {q : ScopeCell} {k : Node → Node} (hr : rt.scopes s = some r)
    (hin : q.inArena = r.inArena) (hk : r.inArena = true → q.node = k r.node) (x : ScopeId) :
    (rt.setScope s q).node x = (rt.node x).map fun n => if x = s then k n else n := by
  refine node_of_map (k := fun y n => if y = s then k n else n) (setScope_scopes hr q)
    (fun y p hp => ?_) (fun y p hp harena => ?_) x
  · by_cases hy : y = s
    · subst hy
      obtain rfl := Option.some.inj (hr.symm.trans hp)
      rwa [if_pos rfl]
    · rw [if_neg hy]
  · by_cases hy : y = s
    · subst hy
      obtain rfl := Option.some.inj (hr.symm.trans hp)
      rw [if_pos rfl, if_pos rfl]
      exact hk harena
    · rw [if_neg hy, if_neg hy]

theorem node_setScope_same {q : ScopeCell} (hr : rt.scopes s = some r)
    (hin : q.inArena = r.inArena) (hq : q.node = r.node) (x : ScopeId) :
    (rt.setScope s q).node x = rt.node x := by
  rw [node_setScope (k := id) hr hin (fun _ => hq)]
  simp

theorem node_modifyScope (rt : Runtime) (s : ScopeId) (f : ScopeCell → ScopeCell) (k : Node → Node)
    (hin : ∀ r : ScopeCell, (f r).inArena = r.inArena) (hk : ∀ r : ScopeCell, (f r).node = k r.node)
    (x : ScopeId) : (rt.modifyScope s f).node x = (rt.node x).map fun n => if x = s then k n else n := by
  refine node_of_map (k := fun y n => if y = s then k n else n) (modifyScope_scopes rt s f)
    (fun y p _ => ?_) (fun y p _ harena => ?_) x
  · split_ifs
    · exact hin p
    · rfl
  · by_cases hy : y = s
    · rw [if_pos ⟨hy, harena⟩, if_pos hy]
      exact hk p
    · rw [if_neg fun h => hy h.1, if_neg hy]

theorem node_modifyScopeCell (rt : Runtime) (s : ScopeId) {f : ScopeCell → ScopeCell}
    (hin : ∀ r : ScopeCell, (f r).inArena = r.inArena) (hf : ∀ r : ScopeCell, (f r).node = r.node)
    (x : ScopeId) : (rt.modifyScopeCell s f).node x = rt.node x := by
  unfold modifyScopeCell
  split
  · rename_i r hr
    exact node_setScope_same hr (hin r) (hf r) x
  · rfl

theorem node_delist (rt : Runtime) (s : ScopeId) (f : FiberId) (x : ScopeId) :
    (rt.delist s f).node x = (rt.node x).map fun n =>
      if x = s then { n with fibers := n.fibers.filter (· ≠ f) } else n := by
  unfold delist
  exact node_modifyScope rt s (fun c => { c with fibers := c.fibers.filter (· ≠ f) })
    (fun n => { n with fibers := n.fibers.filter (· ≠ f) }) (fun _ => rfl) (fun _ => rfl) x

theorem node_requestScopeDisposal (rt : Runtime) (s : ScopeId) (p : Bool) (x : ScopeId) :
    (rt.requestScopeDisposal s p).1.node x = rt.node x := by
  unfold requestScopeDisposal
  split
  · rfl
  · rename_i r hr
    have hr' := (scope_eq_some.mp hr).1
    simp only
    split_ifs with hactive
    · refine node_setScope_same hr' ?_ ?_ x
      · rfl
      · simp [ScopeCell.node, hactive]
    · refine node_setScope_same hr' ?_ ?_ x <;> rfl

/-! ## The worker of a Scope -/

/-- The end of a committed disposal: the Scope is `Disposed`, and its parent lists it no more. -/
def Node.closed (s : ScopeId) (parent : Option ScopeId) (x : ScopeId) (n : Node) : Node :=
  { n with
    disposed := n.disposed || x = s
    children := if some x = parent then n.children.filter (· ≠ s) else n.children }

theorem node_finalize {result : Outcome} {terminated : Bool} (hr : rt.scopes s = some r)
    (hstate : r.state = .Disposing)
    (h : rt.stepScope s r (.finished result terminated) .finalize = some rt') :
    (∀ x, rt'.node x = rt.node x) ∨ r.inArena = true ∧ terminated = false ∧
      ∀ x, rt'.node x = (rt.node x).map (Node.closed s r.parent x) := by
  simp only [stepScope] at h
  by_cases hin : r.inArena = true
  swap
  · rw [if_neg hin] at h
    cases h
    left
    intro x
    refine node_setScope_same hr ?_ ?_ x <;> rfl
  rw [if_pos hin] at h
  cases terminated with
  | true =>
    left
    split at h <;> cases h <;> intro x <;> refine node_setScope_same hr ?_ ?_ x
    all_goals first | rfl | simp [ScopeCell.node, hstate]
  | false =>
    refine .inr ⟨hin, rfl, fun x => ?_⟩
    have hnode : ∀ q : ScopeCell, q.inArena = r.inArena → q.node = { r.node with disposed := true } →
        ∀ x, (rt.setScope s q).node x = (rt.node x).map fun n =>
          if x = s then { n with disposed := true } else n :=
      fun q hq hk => node_setScope (k := fun n => { n with disposed := true }) hr hq fun _ => hk
    split at h
    · rename_i parent hparent
      rw [if_neg Bool.false_ne_true] at h
      cases h
      rw [node_modifyScope _ parent (fun p => { p with children := p.children.filter (· ≠ s) })
        (fun n => { n with children := n.children.filter (· ≠ s) }) (fun _ => rfl) (fun _ => rfl),
        hnode, Option.map_map]
      · congr 1
        funext n
        unfold Node.closed
        rw [hparent]
        by_cases hx : x = s
        · subst hx
          by_cases hp : x = parent <;> simp [hp]
        · by_cases hp : x = parent
          · subst hp
            simp [hx]
          · simp [hx, hp]
      all_goals rfl
    · rename_i hparent
      cases h
      rw [hnode]
      · congr 1
        funext n
        by_cases hx : x = s <;> simp [Node.closed, hparent, hx]
      all_goals rfl

theorem stepScope_node {pc : ScopePc} {a : ScopeLabel} (hr : rt.scopes s = some r)
    (hstate : r.state = .Disposing) (h : rt.stepScope s r pc a = some rt') :
    (∀ x, rt'.node x = rt.node x) ∨ a = .finalize ∧ r.inArena = true ∧
      (∃ result, pc = .finished result false) ∧
      ∀ x, rt'.node x = (rt.node x).map (Node.closed s r.parent x) := by
  have hset : ∀ q : ScopeCell, q.inArena = r.inArena → q.node = r.node →
      ∀ x, (rt.setScope s q).node x = rt.node x := fun q hin hq => node_setScope_same hr hin hq
  cases a
  case finalize =>
    cases pc with
    | finished result terminated =>
      rcases node_finalize hr hstate h with hkept | ⟨hin, rfl, hclosed⟩
      · exact .inl hkept
      · exact .inr ⟨rfl, hin, ⟨result, rfl⟩, hclosed⟩
    | _ => contradiction
  all_goals
    left
    simp only [stepScope] at h
  case visit =>
    split at h <;> try contradiction
    rename_i t
    split at h
    · rename_i child _
      have hrequest := node_requestScopeDisposal rt child t.persistent
      split at h
      all_goals
        rename_i heq
        rw [heq] at hrequest
        cases h
        intro x
        rw [node_modifyScopeCell _ _ (fun _ => by rfl) (fun _ => by rfl)]
        exact hrequest x
    · split at h <;> cases h <;> exact hset _ rfl rfl
    · cases h
      exact hset _ rfl rfl
  case fiberCall =>
    split at h <;> try contradiction
    rename_i t f
    have hscopes := disposeFound_scopes rt f false t.persistent true
    split at h
    all_goals
      rename_i heq
      rw [heq] at hscopes
      have hr' := (congrFun hscopes s).trans hr
      cases h
      intro x
      refine (node_setScope_same hr' ?_ ?_ x).trans (node_congr hscopes x) <;> rfl
  all_goals
    repeat' split at h
    all_goals first | contradiction | (cases h; exact hset _ rfl rfl)

/-! ## One step of the Runtime -/

/-- Fiber `f` is off the list of Scope `s`. -/
def Node.delisted (s : ScopeId) (f : FiberId) (x : ScopeId) (n : Node) : Node :=
  if x = s then { n with fibers := n.fibers.filter (· ≠ f) } else n

/-- What a step does to the Scope tree. -/
inductive Reshapes (rt : Runtime) (l : RuntimeLabel) (rt' : Runtime) : Prop
  | kept (next : rt'.nextScope = rt.nextScope)
      (nodes : ∀ x, Option.Rel Node.Same (rt.node x) (rt'.node x))
  | created (parent : ScopeId) (hidden : Bool) (q : ScopeCell)
      (label : l = .createScope parent hidden ∨ ∃ f, l = .ownScope f parent)
      (next : rt'.nextScope = rt.nextScope + 1) (found : rt.scope parent = some q)
      (active : q.state = .Active)
      (nodes : ∀ x, rt'.node x = if x = rt.nextScope then some ⟨some parent, [], [], false⟩
        else (rt.node x).map fun n =>
          if x = parent then { n with children := n.children ++ [rt.nextScope] } else n)
  | closed (s : ScopeId) (r : ScopeCell) (result : Outcome) (label : l = .scope s .finalize)
      (next : rt'.nextScope = rt.nextScope) (found : rt.scope s = some r)
      (worker : r.worker = some (.finished result false))
      (nodes : ∀ x, rt'.node x = (rt.node x).map (Node.closed s r.parent x))
  | listed (scope : ScopeId) (plugin : Option PluginId) (descriptor : PluginDescriptor)
      (staged : Bool) (label : l = .install scope plugin descriptor staged)
      (next : rt'.nextScope = rt.nextScope)
      (nodes : ∀ x, rt'.node x = (rt.node x).map fun n =>
        if x = scope then { n with fibers := n.fibers ++ [rt.nextFiber] } else n)
  | delisted (f : FiberId) (a : FiberLabel) (scope : ScopeId) (c c' : FiberCell)
      (label : l = .fiber f a) (next : rt'.nextScope = rt.nextScope) (was : rt.fibers f = some c)
      (now : rt'.fibers f = some c')
      (why : c'.inArena = false ∧ scope = c.inner.scope ∨ a = .indexCleanup ∧
        ∃ result target b, c.worker = some (.finalizing result target b (some scope)))
      (nodes : ∀ x, rt'.node x = (rt.node x).map (Node.delisted scope f x))
  | forgotten (f : FiberId) (label : l = .sweepFiber f) (next : rt'.nextScope = rt.nextScope)
      (gone : rt.fiber f = none)
      (nodes : ∀ x, rt'.node x = (rt.node x).map fun n =>
        { n with fibers := n.fibers.filter (· ≠ f) })
  /-- The garbage collector removes a Scope. -/
  | swept (s : ScopeId) (n : Node) (label : l = .sweepScope s)
      (next : rt'.nextScope = rt.nextScope) (other : s ≠ root) (found : rt.node s = some n)
      (disposed : n.disposed = true) (children : n.children = []) (fibers : n.fibers = [])
      (nodes : ∀ x, rt'.node x = if x = s then none else rt.node x)
  /-- A cutover moves a Fiber and its child Scopes. -/
  | moved (old staged : FiberId) (staging target : ScopeId) (oldCell c : FiberCell)
      (label : l = .commitReload old staged staging target)
      (next : rt'.nextScope = rt.nextScope)
      (found : CutFrom rt old staged staging target oldCell c)
      (now : rt' = (rt.cutOver ⟨staging, target, staged, old, c.inner.childScopes⟩ oldCell
        c).setFiber old (superseded oldCell))
      (nodes : ∀ x, rt'.node x =
        (rt.node x).map (Node.relocated staging target staged c.inner.childScopes x))

theorem fiberEffect_node {a : FiberLabel} (f : FiberId) (rt : Runtime) (hstep : c.step a = some c') :
    (∀ x, (fiberEffect f c c' a rt).node x = rt.node x) ∨
    ∃ scope, (c'.inArena = false ∧ scope = c.inner.scope ∨ a = .indexCleanup ∧
        ∃ result target b, c.worker = some (.finalizing result target b (some scope))) ∧
      ∀ x, (fiberEffect f c c' a rt).node x = (rt.node x).map (Node.delisted scope f x) := by
  have heffect := section_effect f rt hstep
  generalize fiberEffect f c c' a rt = rt₁ at heffect ⊢
  cases heffect with
  | closed | published =>
    left
    unfold switch
    split_ifs <;> exact fun x => rfl
  | forgotten scope hwhy =>
    refine .inr ⟨scope, ?_, ?_⟩
    · rcases hwhy with ⟨-, -, hgone, hscope⟩ | hcleanup
      · exact .inl ⟨hgone, hscope⟩
      · exact .inr hcleanup
    · have hdelist := node_delist rt scope f
      rw [delist_eq] at hdelist
      exact hdelist
  | none | numbered | indexed | unregistered | withdrawn => exact .inl fun x => rfl

theorem node_createScope {parent : ScopeId} {hidden : Bool} (ht : Topology rt)
    (h : rt.createScope parent hidden = some rt') :
    rt'.nextScope = rt.nextScope + 1 ∧
      (∃ q, rt.scope parent = some q ∧ q.state = .Active) ∧
      ∀ x, rt'.node x = if x = rt.nextScope then some ⟨some parent, [], [], false⟩
        else (rt.node x).map fun n =>
          if x = parent then { n with children := n.children ++ [rt.nextScope] } else n := by
  obtain ⟨⟨q, hq⟩, heq, hscopes⟩ := createScope_spec h
  have hparent : parent ≠ rt.nextScope := Nat.ne_of_lt (ht.scopes parent q hq).1
  refine ⟨by rw [heq], ?_, fun x => ?_⟩
  · unfold createScope at h
    split_ifs at h with hopen
    obtain ⟨q, hq, hactive⟩ := (Option.any_eq_true _ _).mp hopen.2
    exact ⟨q, hq, by simpa using hactive⟩
  · unfold node scope
    rw [hscopes]
    by_cases hx : x = rt.nextScope
    · subst hx
      simp [Ne.symm hparent, ScopeCell.created, ScopeCell.node, Option.filter]
    · rw [if_neg hx, if_neg hx]
      cases hr : rt.scopes x with
      | none => rfl
      | some r =>
        by_cases hp : x = parent <;> cases hin : r.inArena <;>
          simp [Option.filter, hp, hin, ScopeCell.node]

theorem node_cutOver (p : PreparedScopeRevision) (oldCell c d : FiberCell) (x : ScopeId) :
    ((rt.cutOver p oldCell c).setFiber p.old d).node x =
      (rt.node x).map (Node.relocated p.staging p.target p.staged p.children x) := by
  refine node_of_map (g := relocated p.staging p.target p.staged p.children)
    (k := Node.relocated p.staging p.target p.staged p.children)
    (fun x => rfl) (fun x r _ => relocated_inArena ..) (fun x r _ hin => ?_) x
  unfold relocated
  rw [if_pos hin]
  rfl

theorem step_reshapes (ht : Topology rt) (hb : Busy rt) (h : rt.step l = some rt') :
    Reshapes rt l rt' := by
  have hkept : rt'.nextScope = rt.nextScope → (∀ x, rt'.node x = rt.node x) → Reshapes rt l rt' :=
    fun hnext hnodes => .kept hnext fun x => by
      rw [hnodes]
      cases rt.node x with
      | none => exact .none
      | some n => exact .some (.refl n)
  cases l <;> simp only [step] at h
  case fiber f a =>
    have hnext := (tame_fiberStep h).nextScope
    obtain ⟨c, a', c', hc, ha', hstep, rfl⟩ := fiberStep_spec h
    rcases fiberEffect_node f (rt.setFiber f c') hstep with hsame | ⟨scope, hwhy, hnodes⟩
    · exact hkept hnext hsame
    · refine .delisted f a scope c c' rfl hnext hc ?_ (hwhy.imp_right ?_) hnodes
      · rw [(fiberEffect_fibers _ _ hstep).1]
        exact Function.update_self ..
      · rintro ⟨rfl, hworker⟩
        exact ⟨answered_indexCleanup ha', hworker⟩
  case scope s a =>
    split at h <;> try contradiction
    rename_i r hr
    obtain ⟨pc, hpc, h⟩ := Option.bind_eq_some_iff.mp h
    have hnext := (tame_stepScope hr h).nextScope
    have hstate := hb s r hr (by rw [hpc]; rfl)
    rcases stepScope_node hr hstate h with hsame | ⟨rfl, hin, ⟨result, rfl⟩, hnodes⟩
    · exact hkept hnext hsame
    · exact .closed s r result rfl hnext (scope_eq_some.mpr ⟨hr, hin⟩) hpc hnodes
  case disposeScope s b =>
    cases h
    exact hkept (tame_requestScopeDisposal rt s b).nextScope (node_requestScopeDisposal rt s b)
  case createScope parent hidden =>
    obtain ⟨hnext, ⟨q, hq, hactive⟩, hnodes⟩ := node_createScope ht h
    exact .created parent hidden q (.inl rfl) hnext hq hactive hnodes
  case install scope plugin descriptor staged =>
    obtain ⟨p, heq, hscopes⟩ := insertFiber_spec h
    refine .listed scope plugin descriptor staged rfl (by rw [heq]) ?_
    refine node_of_map (k := fun x n =>
      if x = scope then { n with fibers := n.fibers ++ [rt.nextFiber] } else n) hscopes
      (fun x r _ => ?_) fun x r _ hin => ?_
    · split_ifs <;> rfl
    · by_cases hx : x = scope
      · rw [if_pos ⟨hx, hin⟩, if_pos hx]
        rfl
      · rw [if_neg fun h => hx h.1, if_neg hx]
  case provide =>
    obtain ⟨c, rt₁, -, -, h₁, rfl⟩ := provide_spec h
    obtain ⟨d, -, -, -, rfl⟩ := registerEntry_spec h₁
    exact hkept rfl fun x => rfl
  case handle =>
    obtain ⟨c, rt₁, -, -, h₁, rfl⟩ := handle_spec h
    obtain ⟨d, -, -, -, rfl⟩ := registerEntry_spec h₁
    exact hkept rfl fun x => rfl
  case intercept =>
    obtain ⟨c, rt₁, -, h₁, rfl⟩ := intercept_spec h
    obtain ⟨d, -, -, -, rfl⟩ := registerEntry_spec h₁
    exact hkept rfl fun x => rfl
  case ownScope f scope =>
    obtain ⟨rt₁, h₁, h⟩ := ownScope_spec h
    obtain ⟨hnext, ⟨q, hq, hactive⟩, hnodes⟩ := node_createScope ht h₁
    obtain ⟨d, -, -, -, rfl⟩ := registerEntry_spec h
    exact .created scope false q (.inr ⟨f, rfl⟩) hnext hq hactive hnodes
  case commitReload old staged staging target =>
    rcases commitReload_cases ht h with hsame | ⟨oldCell, c, hcut, rfl⟩
    · exact .kept (by rw [hsame.rest]) fun x => node_same (hsame.scopes x)
    · exact .moved old staged staging target oldCell c rfl rfl hcut rfl
        (node_cutOver _ oldCell c (superseded oldCell))
  case sweepFiber f =>
    unfold sweepFiber at h
    split_ifs at h with hgone
    cases h
    obtain ⟨c, hc, hout⟩ := (Option.any_eq_true _ _).mp hgone
    refine .forgotten f rfl rfl (by simp [fiber, hc, Option.filter, by simpa using hout]) ?_
    refine node_of_map (k := fun x n => { n with fibers := n.fibers.filter (· ≠ f) })
      (fun x => rfl) (fun x r _ => ?_) fun x r _ hin => ?_
    · split_ifs <;> rfl
    · rw [if_pos hin]
      rfl
  case sweepScope s =>
    unfold sweepScope at h
    split at h <;> try contradiction
    rename_i r hr
    split_ifs at h with hempty
    cases h
    obtain ⟨hroot, hdisposed, hchildren, hfibers⟩ := hempty
    refine .swept s r.node rfl rfl hroot (by rw [node, hr]; rfl) (by simp [ScopeCell.node, hdisposed])
      hchildren hfibers fun x => ?_
    by_cases hx : x = s
    · subst hx
      simp [node, scope, setScope, Option.filter]
    · simp [node, scope, setScope, hx]
  case beginShutdown =>
    cases h
    exact hkept rfl fun x => rfl

end Runtime

end Cordis
