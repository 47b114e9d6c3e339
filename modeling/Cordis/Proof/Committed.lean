import Cordis.Proof.Tree

/-!
# A Scope disposal succeeds when its parts do

The traversal of a Scope works on copies of its membership lists, and reads a descendant again after its
disposal returned an error. Where it still finds the descendant then (`Rereads`), and every disposal of a child
is committed, the Scope ends `Disposed`. A child that the garbage collector took away in between ends the
Scope as `Terminated`.
-/

namespace Cordis

open Machine

namespace Runtime

variable {rt rt' rt₀ rt₁ : Runtime} {l : RuntimeLabel} {s : ScopeId} {r r' r₀ : ScopeCell}

/-! ## What a Scope publishes -/

theorem result_error {t : Traversal} {e : CordisError} (h : t.result = .error e) :
    e.isTerminalCleanupError = false := by
  unfold Traversal.result at h
  split_ifs at h
  cases h
  rfl

/-- What holds of the Scope records in every run. -/
structure Vouched (rt : Runtime) : Prop where
  present : ∀ s r, rt.scopes s = some r → r.state ≠ .Disposed → r.inArena = true
  silent : ∀ s r, rt.scopes s = some r → r.state = .Active ∨ r.state = .Disposing → r.published = none
  finished : ∀ s r e, rt.scopes s = some r → r.worker = some (.finished (.error e) false) →
    e.isTerminalCleanupError = false
  committed : ∀ s r o, rt.scopes s = some r → r.published = some o → o.IsCommitted →
    r.state = .Disposed ∧ ∀ e, o.legacyResult = .error e → e.isTerminalCleanupError = false

theorem vouched_new : Vouched .new where
  present := fun s r hr _ => by
    simp only [new] at hr
    split_ifs at hr
    cases hr
    rfl
  silent := fun s r hr _ => by
    simp only [new] at hr
    split_ifs at hr
    cases hr
    rfl
  finished := fun s r e hr hw => by
    simp only [new] at hr
    split_ifs at hr
    cases hr
    contradiction
  committed := fun s r o hr ho => by
    simp only [new] at hr
    split_ifs at hr
    cases hr
    contradiction

theorem node_step (ht : Topology rt) (hb : Busy rt) (h : rt.step l = some rt') (hs : (rt.node s).isSome) :
    (rt'.node s).isSome ∨ ∃ n, rt.node s = some n ∧ n.disposed = true := by
  obtain ⟨n, hn⟩ := Option.isSome_iff_exists.mp hs
  cases step_reshapes ht hb h with
  | kept _ nodes =>
    have hrel := nodes s
    rw [hn] at hrel
    left
    cases hnode : rt'.node s with
    | none =>
      rw [hnode] at hrel
      cases hrel
    | some n' => rfl
  | created parent hidden q _ _ _ _ nodes =>
    left
    rw [nodes, hn]
    by_cases hx : s = rt.nextScope
    · rw [if_pos hx]
      rfl
    · rw [if_neg hx]
      rfl
  | closed _ _ _ _ _ _ _ nodes | listed _ _ _ _ _ _ nodes | delisted _ _ _ _ _ _ _ _ _ _ nodes
  | forgotten _ _ _ _ nodes | moved _ _ _ _ _ _ _ _ _ _ nodes =>
    rw [nodes, hn]
    exact .inl rfl
  | swept x m _ _ _ found disposed _ _ nodes =>
    rw [nodes]
    split_ifs with hx
    · subst hx
      exact .inr ⟨m, found, disposed⟩
    · rw [hn]
      exact .inl rfl

theorem Vouched.present_step (hv : Vouched rt) (ht : Topology rt) (hb : Busy rt) (h : rt.step l = some rt')
    (hr' : rt'.scopes s = some r') (hstate : r'.state ≠ .Disposed) : r'.inArena = true := by
  have hin : (rt'.node s).isSome := by
    rcases step_turn ht hb h hr' with ⟨hle, hlt, -⟩ | ⟨r, hr, hturn⟩
    · cases step_reshapes ht hb h with
      | created parent hidden q _ next _ _ nodes =>
        rw [next] at hlt
        rw [nodes, if_pos (Nat.le_antisymm (Nat.le_of_lt_succ hlt) hle)]
        rfl
      | kept next | closed _ _ _ _ next | listed _ _ _ _ _ next | delisted _ _ _ _ _ _ next
      | forgotten _ _ next | swept _ _ _ next | moved _ _ _ _ _ _ _ next =>
        rw [next] at hlt
        exact absurd hlt (Nat.not_lt_of_le hle)
    · have hne : r.state ≠ .Disposed := fun hd =>
        hstate ((hturn.settled hb hr (.inl hd)).trans hd)
      have hnode : rt.node s = some r.node :=
        node_eq_some.mpr ⟨r, hr, hv.present s r hr hne, rfl⟩
      rcases node_step ht hb h (by rw [hnode]; rfl) with hsome | ⟨n, hn, hdisposed⟩
      · exact hsome
      · rw [hnode] at hn
        cases hn
        exact absurd (by simpa [ScopeCell.node] using hdisposed) hne
  obtain ⟨n, hn⟩ := Option.isSome_iff_exists.mp hin
  obtain ⟨q, hq, harena, -⟩ := node_eq_some.mp hn
  obtain rfl := Option.some.inj (hr'.symm.trans hq)
  exact harena

theorem finalScopeResult_false (result : Outcome) : finalScopeResult result false = result := rfl

/-- What the finalizer of a Scope publishes as committed is the result of a body that was not cut short. -/
theorem finalized_committed {result : Outcome} {terminated : Bool} {o : DisposalObservation}
    (hfinal : r.Finalized r' result terminated) (hin : r.inArena = true) (hnone : r.published = none)
    (ho : r'.published = some o) :
    o.legacyResult = finalScopeResult result terminated ∧ (o.IsCommitted ↔ terminated = false) := by
  rw [hfinal.published, if_pos hin, hnone] at ho
  cases ho
  refine ⟨rfl, ?_⟩
  unfold DisposalObservation.IsCommitted
  cases terminated <;> simp

theorem vouched_step (ht : Topology rt) (hb : Busy rt) (hv : Vouched rt) (h : rt.step l = some rt') :
    Vouched rt' where
  present := fun s r' hr' => hv.present_step ht hb h hr'
  silent := fun s r' hr' hopen => by
    rcases step_turn ht hb h hr' with ⟨-, -, hblank⟩ | ⟨r, hr, hframe | hopened |
      ⟨a, pc, pc', -, -, -, hat⟩ | ⟨result, terminated, -, hwas, hfinal⟩⟩
    · exact hblank.published
    · rw [hframe.published]
      exact hv.silent s r hr (hframe.state ▸ hopen)
    · rw [hopened.published]
      exact hv.silent s r hr (.inl hopened.active)
    · rw [hat.published]
      exact hv.silent s r hr (hat.state ▸ hopen)
    · have hbusy := hb s r hr (by rw [hwas]; rfl)
      have hin := hv.present s r hr (by rw [hbusy]; simp)
      rw [hfinal.state, if_pos hin] at hopen
      cases terminated <;> simp at hopen
  finished := fun s r' e hr' hw => by
    rcases step_turn ht hb h hr' with ⟨-, -, hblank⟩ | ⟨r, hr, hframe | hopened |
      ⟨a, pc, pc', -, -, hnext, hat⟩ | ⟨result, terminated, -, hwas, hfinal⟩⟩
    · rw [hblank.worker] at hw
      contradiction
    · exact hv.finished s r e hr (hframe.worker ▸ hw)
    · rw [hopened.worker] at hw
      cases hw
    · rw [hat.worker] at hw
      have hpc := Option.some.inj hw
      cases hnext with
      | exhausted t _ _ =>
        injection hpc with hresult
        exact result_error hresult
      | _ => cases hpc
    · rw [hfinal.worker] at hw
      contradiction
  committed := fun s r' o hr' ho hcommitted => by
    rcases step_turn ht hb h hr' with ⟨-, -, hblank⟩ | ⟨r, hr, hframe | hopened |
      ⟨a, pc, pc', -, -, -, hat⟩ | ⟨result, terminated, -, hwas, hfinal⟩⟩
    · rw [hblank.published] at ho
      contradiction
    · rw [hframe.state]
      exact hv.committed s r o hr (hframe.published ▸ ho) hcommitted
    · rw [hopened.published, hv.silent s r hr (.inl hopened.active)] at ho
      contradiction
    · rw [hat.state]
      exact hv.committed s r o hr (hat.published ▸ ho) hcommitted
    · have hbusy := hb s r hr (by rw [hwas]; rfl)
      have hin := hv.present s r hr (by rw [hbusy]; simp)
      obtain ⟨hlegacy, hiff⟩ := finalized_committed hfinal hin (hv.silent s r hr (.inr hbusy)) ho
      obtain rfl := hiff.mp hcommitted
      refine ⟨by rw [hfinal.state, if_pos hin]; rfl, fun e he => ?_⟩
      rw [hlegacy, finalScopeResult_false] at he
      subst he
      exact hv.finished s r e hr hwas

/-! ## The traversal -/

theorem published_step {o : DisposalObservation} (ht : Topology rt) (hb : Busy rt)
    (h : rt.step l = some rt') (hr : rt.scopes s = some r) (ho : r.published = some o) :
    ∃ r', rt'.scopes s = some r' ∧ r'.published = some o := by
  obtain ⟨r', hr'⟩ := (step_frames ht h).kept s r hr
  refine ⟨r', hr', ?_⟩
  rcases step_turn ht hb h hr' with ⟨hle, -, -⟩ | ⟨q, hq, hturn⟩
  · exact absurd (ht.scopes s r hr).1 (Nat.not_lt_of_le hle)
  · obtain rfl := Option.some.inj (hr.symm.trans hq)
    rcases hturn with hframe | hopened | ⟨a, pc, pc', -, -, -, hat⟩ | ⟨result, terminated, -, -, hfinal⟩
    · rw [hframe.published, ho]
    · rw [hopened.published, ho]
    · rw [hat.published, ho]
    · rw [hfinal.published, ho]
      split_ifs <;> rfl

/-- The disposals of `members` that are published are committed. -/
def AllCommitted (rt : Runtime) (members : List ScopeId) : Prop :=
  ∀ x ∈ members, ∀ q o, rt.scopes x = some q → q.published = some o → o.IsCommitted

theorem allCommitted_back {members : List ScopeId} (ht : Topology rt) (hb : Busy rt)
    (h : rt.step l = some rt') (hall : rt'.AllCommitted members) : rt.AllCommitted members := by
  intro x hx q o hq ho
  obtain ⟨q', hq', ho'⟩ := published_step ht hb h hq ho
  exact hall x hx q' o hq' ho'

/-- The disposal of Scope `x` has returned `e`, or the Scope was not found. -/
def Answered (rt : Runtime) (x : ScopeId) (e : CordisError) : Prop :=
  x < rt.nextScope ∧ rt.scope x = none ∨
    ∃ q o, rt.scopes x = some q ∧ q.published = some o ∧ o.legacyResult = .error e

theorem answered_step {x : ScopeId} {e : CordisError} (ht : Topology rt) (hb : Busy rt)
    (h : rt.step l = some rt') (ha : rt.Answered x e) : rt'.Answered x e := by
  rcases ha with ⟨hlt, hgone⟩ | ⟨q, o, hq, ho, he⟩
  · refine .inl ⟨Nat.lt_of_lt_of_le hlt (step_frames ht h).next, ?_⟩
    by_contra hne
    obtain ⟨q', hq'⟩ := Option.ne_none_iff_exists'.mp hne
    obtain ⟨hrecord, hin⟩ := scope_eq_some.mp hq'
    rcases step_turn ht hb h hrecord with ⟨hle, -, -⟩ | ⟨q, hq, hturn⟩
    · exact absurd hlt (Nat.not_lt_of_le hle)
    · rw [scope_eq_some.mpr ⟨hq, hturn.arena hin⟩] at hgone
      contradiction
  · obtain ⟨q', hq', ho'⟩ := published_step ht hb h hq ho
    exact .inr ⟨q', o, hq', ho', he⟩

end Runtime

/-- A traversal of `members` that no descendant has cut short. -/
def ScopePc.Unbroken (rt : Runtime) (members : List ScopeId) : ScopePc → Prop
  | .copying => False
  | .visiting t | .fiberSeen t _ | .fiberFound t _ | .fiberWaiting t _ _ | .fiberFailed t _ _ =>
    t.terminated = false ∧ ∀ x ∈ t.children, x ∈ members
  | .childWaiting t child => (t.terminated = false ∧ ∀ x ∈ t.children, x ∈ members) ∧ child ∈ members
  | .childFailed t child e =>
    (t.terminated = false ∧ ∀ x ∈ t.children, x ∈ members) ∧ child ∈ members ∧ rt.Answered child e
  | .finished _ terminated => terminated = false

/-- A descendant that is read again is there, as its disposal left it, and its error is none of a worker. -/
def ScopePc.rereads (rt : Runtime) : ScopePc → ScopeLabel → Bool
  | .childFailed _ child _, .childReread => (rt.scope child).isSome
  | .fiberFailed _ f e, .fiberReread =>
    (rt.fiber f).any (fun c => c.inner.state = .Disposed ∨ c.inner.state = .WaitingDependencies) &&
      !e.isTerminalCleanupError
  | _, _ => true

/-- No worker panics or is aborted. -/
def RuntimeLabel.unaborted : RuntimeLabel → Bool
  | .scope _ (.workerDied _) | .fiber _ (.workerDied _) => false
  | _ => true

def RuntimeLabel.Unaborted (l : RuntimeLabel) : Prop := l.unaborted = true

instance (l : RuntimeLabel) : Decidable l.Unaborted := inferInstanceAs (Decidable (_ = true))

instance (o : DisposalObservation) : Decidable o.IsCommitted :=
  match h : o.terminal with
  | .Committed => isTrue h
  | .Incomplete _ => isFalse fun hcommitted => by
    rw [DisposalObservation.IsCommitted, h] at hcommitted
    contradiction

namespace Runtime

variable {rt rt' rt₀ rt₁ : Runtime} {l : RuntimeLabel} {s : ScopeId} {r r' r₀ : ScopeCell}

/-- The traversal of Scope `s` finds what it reads again. -/
def rereads (s : ScopeId) (rt : Runtime) : RuntimeLabel → Bool
  | .scope x a => x != s || ((rt.scopes s).bind (·.worker)).all (·.rereads rt a)
  | _ => true

def Rereads (s : ScopeId) (rt : Runtime) (l : RuntimeLabel) : Prop := rereads s rt l = true

instance (s : ScopeId) (rt : Runtime) (l : RuntimeLabel) : Decidable (Rereads s rt l) :=
  inferInstanceAs (Decidable (_ = true))

theorem unbroken_next {members : List ScopeId} {a : ScopeLabel} {pc pc' : ScopePc} (hv : Vouched rt)
    (hknown : ∀ x ∈ members, x < rt.nextScope) (hall : rt.AllCommitted members)
    (hun : pc.Unbroken rt members) (hpanic : ∀ panic, a ≠ .workerDied panic)
    (hreads : pc.rereads rt a = true) (hnext : ScopePc.Next rt r a pc pc') : pc'.Unbroken rt members := by
  cases hnext with
  | copied | lost => exact hun.elim
  | childAsked t child last =>
    exact ⟨⟨hun.1, fun x hx => hun.2 x (List.mem_of_mem_dropLast hx)⟩,
      hun.2 child (List.mem_of_getLast? last)⟩
  | childMissing t child last gone =>
    have hmem := hun.2 child (List.mem_of_getLast? last)
    exact ⟨⟨hun.1, fun x hx => hun.2 x (List.mem_of_mem_dropLast hx)⟩, hmem,
      .inl ⟨hknown child hmem, gone⟩⟩
  | fiberSkipped t f | fiberFound t f => exact hun
  | exhausted t => exact hun.1
  | childOk => exact hun.1
  | childErr t child q o e record published failed =>
    exact ⟨hun.1, hun.2, .inr ⟨q, o, record, published, failed⟩⟩
  | childReread t child e committed reread =>
    obtain ⟨hclean, hmem, hanswered⟩ := hun
    obtain ⟨p, hp⟩ := Option.isSome_iff_exists.mp hreads
    rcases hanswered with ⟨-, hgone⟩ | ⟨q, o, hq, ho, he⟩
    · rw [hp] at hgone
      contradiction
    · obtain rfl := Option.some.inj (hq.symm.trans (scope_eq_some.mp hp).1)
      obtain ⟨hdisposed, hmild⟩ := hv.committed child q o hq ho (hall child hmem q o hq ho)
      refine ⟨?_, hclean.2⟩
      simp [Traversal.failed, hclean.1, reread, hp, hdisposed, hmild e he]
  | fiberHere | fiberGone | fiberCalled | fiberRefused => exact hun
  | fiberOk | fiberErr => exact hun
  | fiberReread t f e committed reread =>
    obtain ⟨hthere, hmild⟩ := Bool.and_eq_true_iff.mp hreads
    have hcommitted : committed = true := reread.trans hthere
    refine ⟨?_, hun.2⟩
    simpa [Traversal.failed, hun.1, hcommitted] using hmild
  | died panic => exact absurd rfl (hpanic panic)

theorem Unbroken.stays {members : List ScopeId} {pc : ScopePc} (ht : Topology rt) (hb : Busy rt)
    (h : rt.step l = some rt') (hun : pc.Unbroken rt members) : pc.Unbroken rt' members := by
  cases pc with
  | childFailed t child e => exact ⟨hun.1, hun.2.1, answered_step ht hb h hun.2.2⟩
  | _ => exact hun

/-- The disposal of a Scope that is under way and unbroken, or over and committed. -/
inductive Succeeding (rt : Runtime) (members : List ScopeId) (r : ScopeCell) : Prop
  | working (pc : ScopePc) (worker : r.worker = some pc) (unbroken : pc.Unbroken rt members)
  | over (worker : r.worker = none) (disposed : r.state = .Disposed)
      (committed : ∀ o, r.published = some o → o.IsCommitted)

theorem succeeding_step {members : List ScopeId} (ht : Topology rt) (hb : Busy rt) (hv : Vouched rt)
    (hknown : ∀ x ∈ members, x < rt.nextScope) (hall : rt.AllCommitted members)
    (halive : l.Unaborted) (hok : Rereads s rt l) (h : rt.step l = some rt')
    (hr' : rt'.scopes s = some r')
    (hs : ∀ r, rt.scopes s = some r → Succeeding rt members r) (hold : s < rt.nextScope) :
    Succeeding rt' members r' := by
  rcases step_turn ht hb h hr' with ⟨hle, -, -⟩ | ⟨r, hr, hturn⟩
  · exact absurd hold (Nat.not_lt_of_le hle)
  rcases hs r hr with ⟨pc, hw, hun⟩ | ⟨hw, hdisposed, hcommitted⟩
  · have hbusy := hb s r hr (by rw [hw]; rfl)
    rcases hturn with hframe | hopened | ⟨a, pc₀, pc', rfl, hwas, hnext, hat⟩ |
      ⟨result, terminated, rfl, hwas, hfinal⟩
    · exact .working pc (hframe.worker.trans hw) (Unbroken.stays ht hb h hun)
    · rw [hopened.active] at hbusy
      contradiction
    · obtain rfl := Option.some.inj (hw.symm.trans hwas)
      have hpanic : ∀ panic, a ≠ .workerDied panic := by
        rintro panic rfl
        contradiction
      have hreads : pc.rereads rt a = true := by
        unfold Rereads rereads at hok
        simpa [hr, hw] using hok
      exact .working pc' hat.worker
        (Unbroken.stays ht hb h (unbroken_next hv hknown hall hun hpanic hreads hnext))
    · obtain rfl := Option.some.inj (hw.symm.trans hwas)
      obtain rfl : terminated = false := hun
      have hin := hv.present s r hr (by rw [hbusy]; simp)
      refine .over hfinal.worker (by rw [hfinal.state, if_pos hin]; rfl) fun o ho => ?_
      exact (finalized_committed hfinal hin (hv.silent s r hr (.inr hbusy)) ho).2.mpr rfl
  · rcases hturn with hframe | hopened | ⟨a, pc₀, pc', -, hwas, -, -⟩ | ⟨result, terminated, -, hwas, -⟩
    · exact .over (hframe.worker.trans hw) (hframe.state.trans hdisposed) fun o ho =>
        hcommitted o (hframe.published ▸ ho)
    · rw [hopened.active] at hdisposed
      contradiction
    · rw [hw] at hwas
      contradiction
    · rw [hw] at hwas
      contradiction

theorem vouched_reach {ok : Runtime → RuntimeLabel → Prop} (h : Reach step ok .new rt) :
    Topology rt ∧ Busy rt ∧ Vouched rt := by
  refine h.invariant (I := fun rt => Topology rt ∧ Busy rt ∧ Vouched rt)
    ⟨topology_new, busy_new, vouched_new⟩ ?_
  rintro rt l rt' ⟨ht, hb, hv⟩ - hs
  exact ⟨topology_step ht hs, busy_step ht hb hs, vouched_step ht hb hv hs⟩

theorem copied_unbroken (hb : Busy rt) (hv : Vouched rt) (hr : rt.scopes s = some r)
    (h : rt.step (.scope s .copy) = some rt') (hr' : rt'.scopes s = some r') :
    Succeeding rt' r.children r' := by
  simp only [step, hr] at h
  obtain ⟨pc, hw, h⟩ := Option.bind_eq_some_iff.mp h
  have hbusy := hb s r hr (by rw [hw]; rfl)
  rcases stepScope_next hr (by rw [hbusy]; simp) h with ⟨pc', q, hnext, hq, hat⟩ | ⟨_, _, _, hlabel, -⟩
  · obtain rfl := Option.some.inj (hr'.symm.trans hq)
    refine .working pc' hat.worker ?_
    cases hnext with
    | copied => exact ⟨rfl, fun x hx => hx⟩
    | lost gone =>
      rw [hv.present s r hr (by rw [hbusy]; simp)] at gone
      contradiction
  · cases hlabel

/-- **A Scope disposal succeeds when its parts do**: if the traversal finds what it reads again, and the
published disposals of the children are committed, the Scope is never `Terminated`, and what it reports is
committed. -/
theorem scope_disposal_committed (h₀ : Reach step (fun _ l => l.Unaborted) .new rt₀)
    (hr₀ : rt₀.scopes s = some r₀) (hcopy : rt₀.step (.scope s .copy) = some rt₁)
    (h : Reach step (fun rt l => l.Unaborted ∧ Rereads s rt l) rt₁ rt)
    (hall : rt.AllCommitted r₀.children) (hr : rt.scopes s = some r) :
    r.state ≠ .Terminated ∧ ∀ o, r.published = some o → o.IsCommitted ∧ r.state = .Disposed := by
  obtain ⟨ht₀, hb₀, hv₀⟩ := vouched_reach h₀
  have hinv : (Topology rt ∧ Busy rt ∧ Vouched rt ∧
      (∀ x ∈ r₀.children, x < rt.nextScope) ∧ s < rt.nextScope) ∧
      (rt.AllCommitted r₀.children → ∀ r, rt.scopes s = some r → Succeeding rt r₀.children r) := by
    refine h.invariant (I := fun rt => (Topology rt ∧ Busy rt ∧ Vouched rt ∧
      (∀ x ∈ r₀.children, x < rt.nextScope) ∧ s < rt.nextScope) ∧
        (rt.AllCommitted r₀.children → ∀ r, rt.scopes s = some r → Succeeding rt r₀.children r)) ?_ ?_
    · have hnext := (step_frames ht₀ hcopy).next
      obtain ⟨hlt, -, hbelow, -⟩ := ht₀.scopes s r₀ hr₀
      exact ⟨⟨topology_step ht₀ hcopy, busy_step ht₀ hb₀ hcopy, vouched_step ht₀ hb₀ hv₀ hcopy,
        fun x hx => Nat.lt_of_lt_of_le (hbelow x hx) hnext, Nat.lt_of_lt_of_le hlt hnext⟩,
        fun _ r hr => copied_unbroken hb₀ hv₀ hr₀ hcopy hr⟩
    · rintro t l u ⟨⟨ht, hb, hv, hknown, hold⟩, hs⟩ hok hstep
      have hnext := (step_frames ht hstep).next
      refine ⟨⟨topology_step ht hstep, busy_step ht hb hstep, vouched_step ht hb hv hstep,
        fun x hx => Nat.lt_of_lt_of_le (hknown x hx) hnext, Nat.lt_of_lt_of_le hold hnext⟩,
        fun hall r hr => ?_⟩
      have hbefore := allCommitted_back ht hb hstep hall
      exact succeeding_step ht hb hv hknown hbefore hok.1 hok.2 hstep hr (hs hbefore) hold
  obtain ⟨⟨-, hb, hv, -⟩, hs⟩ := hinv
  rcases hs hall r hr with ⟨pc, hw, -⟩ | ⟨-, hdisposed, hcommitted⟩
  · have hbusy := hb s r hr (by rw [hw]; rfl)
    have hnone := hv.silent s r hr (.inr hbusy)
    refine ⟨by rw [hbusy]; simp, fun o ho => ?_⟩
    rw [hnone] at ho
    contradiction
  · exact ⟨by rw [hdisposed]; simp, fun o ho => ⟨hcommitted o ho, hdisposed⟩⟩

/-- Up to the disposal of a Scope with a child Scope and a Fiber with an Effect. -/
def parted : List RuntimeLabel :=
  [.createScope 0 false, .createScope 1 false] ++
  installed 0 1 none ⟨[], [], .Restart⟩ false [.fiber 0 (.register (.effect 3))] ++ [.disposeScope 1 false]

/-- The traversal; the Effect fails, and the Fiber is `Disposed` all the same. -/
def traversed : List RuntimeLabel :=
  [.scope 1 .visit, .scope 2 .copy, .scope 2 .visit, .scope 2 .finalize, .scope 1 .childReturned,
    .scope 1 .visit, .scope 1 .fiberLookup, .scope 1 .fiberCall] ++
  sections 0 [.workerLookup, .workerLock, .takeTasks, .tasksJoined (.ok ()), .drained, .pickChild, .unregister,
    .withdraw, .takeEffect, .effectDisposed (.error (.PluginDisposeFailed "")), .takeEffect, .readTarget,
    .reconciled (.ok ()), .report, .finalizeBegin, .indexCleanup, .finalizeCommit] ++
  [.scope 1 .fiberReturned, .scope 1 .fiberReread, .scope 1 .visit, .scope 1 .finalize]

/-- A failed Effect of a member does not end the Scope. -/
theorem scope_disposal_committed_effect :
    ∃ (rt : Runtime) (r : ScopeCell) (o : DisposalObservation),
      Reach step (fun _ l => l.Unaborted) .new rt ∧ rt.scopes 1 = some r ∧ r.published = some o ∧
        o.IsCommitted ∧ r.state = .Disposed ∧
      o.issues.isEmpty = false := by
  have hrun : ((runIf step (fun _ l => l.Unaborted) .new parted).any fun rt₀ =>
      (rt₀.scopes 1).any fun r₀ => r₀.children = [2] && (rt₀.step (.scope 1 .copy)).any fun rt₁ =>
        (runIf step (fun rt l => l.Unaborted ∧ Rereads 1 rt l) rt₁ traversed).any fun rt =>
          (rt.scopes 2).all (fun q => q.published.all fun o => o.IsCommitted) &&
          (rt.scopes 1).any fun r => r.published.any fun o => !o.issues.isEmpty) = true := by
    decide +kernel
  obtain ⟨rt₀, hrt₀, hrun⟩ := (Option.any_eq_true _ _).mp hrun
  obtain ⟨r₀, hr₀, hrun⟩ := (Option.any_eq_true _ _).mp hrun
  obtain ⟨hchildren, hrun⟩ := Bool.and_eq_true_iff.mp hrun
  obtain ⟨rt₁, hcopy, hrun⟩ := (Option.any_eq_true _ _).mp hrun
  obtain ⟨rt, hrt, hrun⟩ := (Option.any_eq_true _ _).mp hrun
  obtain ⟨hchild, hrun⟩ := Bool.and_eq_true_iff.mp hrun
  obtain ⟨r, hr, hrun⟩ := (Option.any_eq_true _ _).mp hrun
  obtain ⟨o, ho, hissues⟩ := (Option.any_eq_true _ _).mp hrun
  have hall : rt.AllCommitted r₀.children := by
    intro x hx q p hq hp
    rw [of_decide_eq_true hchildren, List.mem_singleton] at hx
    subst hx
    rw [hq, Option.all_some, hp, Option.all_some] at hchild
    exact of_decide_eq_true hchild
  have h₀ := reach_of_runIf hrt₀
  have h₁ := reach_of_runIf hrt
  obtain ⟨-, hcommitted⟩ := scope_disposal_committed h₀ hr₀ hcopy h₁ hall hr
  have hsound : (RuntimeLabel.scope 1 .copy).Unaborted := rfl
  have hreach := (h₀.tail hsound hcopy).trans (h₁.mono fun _ _ h => h.1)
  exact ⟨rt, r, o, hreach, hr, ho, (hcommitted o ho).1, (hcommitted o ho).2, by simpa using hissues⟩

/-- The child Scope is disposed by another caller and swept before the traversal comes to it. -/
def reclaimed : List RuntimeLabel :=
  [.disposeScope 2 false, .scope 2 .copy, .scope 2 .visit, .scope 2 .finalize, .sweepScope 2,
    .scope 1 .visit, .scope 1 .childReread, .scope 1 .visit, .scope 1 .finalize]

/-- The traversal asks for the disposal of a child that is gone, and ends the Scope as `Terminated`. -/
theorem scope_disposal_terminated :
    ¬ ∀ (rt₀ rt₁ rt : Runtime) s r₀ r, Reach step (fun _ l => l.Unaborted) .new rt₀ →
      rt₀.scopes s = some r₀ → rt₀.step (.scope s .copy) = some rt₁ → Reach step (fun _ l => l.Unaborted) rt₁ rt →
      rt.AllCommitted r₀.children →
      (∀ f ∈ r₀.fibers, ∀ c n o, rt.fibers f = some c → c.published n = some o → o.IsCommitted) →
      rt.scopes s = some r →
      r.state ≠ .Terminated ∧ ∀ o, r.published = some o → o.IsCommitted ∧ r.state = .Disposed := by
  intro hclaim
  have hrun : ((runIf step (fun _ l => l.Unaborted) .new
      [.createScope 0 false, .createScope 1 false, .disposeScope 1 false]).any fun rt₀ =>
      (rt₀.scopes 1).any fun r₀ => (r₀.children = [2] ∧ r₀.fibers = []) &&
        (rt₀.step (.scope 1 .copy)).any fun rt₁ =>
          (runIf step (fun _ l => l.Unaborted) rt₁ reclaimed).any fun rt =>
            (rt.scopes 2).all (fun q => q.published.all fun o => o.IsCommitted) &&
            (rt.scopes 1).any fun r => r.state = .Terminated) = true := by
    decide +kernel
  obtain ⟨rt₀, hrt₀, hrun⟩ := (Option.any_eq_true _ _).mp hrun
  obtain ⟨r₀, hr₀, hrun⟩ := (Option.any_eq_true _ _).mp hrun
  obtain ⟨hmembers, hrun⟩ := Bool.and_eq_true_iff.mp hrun
  obtain ⟨rt₁, hcopy, hrun⟩ := (Option.any_eq_true _ _).mp hrun
  obtain ⟨rt, hrt, hrun⟩ := (Option.any_eq_true _ _).mp hrun
  obtain ⟨hchild, hrun⟩ := Bool.and_eq_true_iff.mp hrun
  obtain ⟨r, hr, hterminated⟩ := (Option.any_eq_true _ _).mp hrun
  obtain ⟨hchildren, hfibers⟩ := of_decide_eq_true hmembers
  refine (hclaim rt₀ rt₁ rt 1 r₀ r (reach_of_runIf hrt₀) hr₀ hcopy (reach_of_runIf hrt) ?_ ?_ hr).1
    (of_decide_eq_true hterminated)
  · intro x hx q p hq hp
    rw [hchildren, List.mem_singleton] at hx
    subst hx
    rw [hq, Option.all_some, hp, Option.all_some] at hchild
    exact of_decide_eq_true hchild
  · intro f hf
    rw [hfibers] at hf
    contradiction

end Runtime

end Cordis
