import Cordis.Proof.Tree

/-!
# Registrations live in the Scope of their owner

A Context call files what it registers under the Scope it captured when it was admitted, and the
cutover moves what the staged Fiber has filed until then. As long as the captured Scope is still the
Fiber's own when the call is applied, everything a Fiber owns is filed under that Scope.
-/

namespace Cordis

open Machine

namespace Runtime

variable {rt rt' : Runtime} {f : FiberId} {c c' : FiberCell} {l : RuntimeLabel}

/-- A registration is filed under the Scope that its Fiber is bound to now. -/
def Settled (rt : Runtime) : RuntimeLabel → Prop
  | .provide f scope _ | .handle f scope _ | .intercept f scope _ | .ownScope f scope =>
    ∀ c ∈ rt.fibers f, c.inner.scope = scope
  | _ => True

instance (rt : Runtime) (l : RuntimeLabel) : Decidable (rt.Settled l) := by
  unfold Settled
  split <;> infer_instance

/-- Whatever Fiber `f` owns is filed under its Scope. -/
structure Homed (rt : Runtime) (f : FiberId) (c : FiberCell) : Prop where
  services : ∀ s k e, rt.services s k = some e → e.owner = f → s = c.inner.scope ∧ e.scope = s
  handlers : ∀ id ∈ c.inner.invocationHandlers, ∀ e, rt.handlers id = some e →
    e.scope = c.inner.scope
  middleware : ∀ id ∈ c.inner.invocationMiddleware, ∀ e, rt.middleware id = some e →
    e.scope = c.inner.scope
  children : ∀ x ∈ c.inner.childScopes, ∀ n, rt.node x = some n → n.parent = some c.inner.scope

/-- Every Fiber is at home, and no two own a Scope in common. -/
structure Placed (rt : Runtime) : Prop where
  homed : ∀ f c, rt.fibers f = some c → Homed rt f c
  apart : ∀ f g c d, rt.fibers f = some c → rt.fibers g = some d →
    ∀ x ∈ c.inner.childScopes, x ∈ d.inner.childScopes → f = g

theorem placed_new : Placed .new where
  homed := fun f c h => by cases h
  apart := fun f g c d h => by cases h

/-! ## Steps that leave every Fiber where it is -/

/-- A step that moves no Fiber and files what it adds under the Scope of its owner. -/
structure Places (rt rt' : Runtime) : Prop where
  fibers : ∀ g d', rt'.fibers g = some d' → ∃ d, rt.fibers g = some d ∧
    d'.inner.scope = d.inner.scope ∧
    (∀ id ∈ d'.inner.invocationHandlers, ∀ e, rt'.handlers id = some e →
      id ∈ d.inner.invocationHandlers ∧ rt.handlers id = some e ∨ e.scope = d.inner.scope) ∧
    (∀ id ∈ d'.inner.invocationMiddleware, ∀ e, rt'.middleware id = some e →
      id ∈ d.inner.invocationMiddleware ∧ rt.middleware id = some e ∨ e.scope = d.inner.scope) ∧
    ∀ x ∈ d'.inner.childScopes, ∀ n', rt'.node x = some n' →
      x ∈ d.inner.childScopes ∧ (∃ n, rt.node x = some n ∧ n'.parent = n.parent) ∨
        n'.parent = some d.inner.scope
  services : ∀ s k e, rt'.services s k = some e → rt.services s k = some e ∨
    e.scope = s ∧ ∃ d, rt.fibers e.owner = some d ∧ s = d.inner.scope

theorem Places.homed (h : Places rt rt') (hp : Placed rt) (hc' : rt'.fibers f = some c') :
    Homed rt' f c' := by
  obtain ⟨c, hc, hscope, hhandlers, hmiddleware, hchildren⟩ := h.fibers f c' hc'
  have hhome := hp.homed f c hc
  exact {
    services := fun s k e he ho => by
      rw [hscope]
      rcases h.services s k e he with hwas | ⟨hs, d, hd, heq⟩
      · exact hhome.services s k e hwas ho
      · obtain rfl : c = d := by simpa [ho, hc] using hd
        exact ⟨heq, hs⟩
    handlers := fun id hid e he => by
      rw [hscope]
      rcases hhandlers id hid e he with ⟨hin, hwas⟩ | hnew
      · exact hhome.handlers id hin e hwas
      · exact hnew
    middleware := fun id hid e he => by
      rw [hscope]
      rcases hmiddleware id hid e he with ⟨hin, hwas⟩ | hnew
      · exact hhome.middleware id hin e hwas
      · exact hnew
    children := fun x hx n' hn' => by
      rw [hscope]
      rcases hchildren x hx n' hn' with ⟨hin, n, hn, hparent⟩ | hnew
      · exact hparent.trans (hhome.children x hin n hn)
      · exact hnew }

theorem places_tame (ht : Topology rt) (h : Tame rt rt')
    (hnodes : ∀ x n', rt'.node x = some n' → ∃ n, rt.node x = some n ∧ n'.parent = n.parent) :
    Places rt rt' where
  fibers := fun f c' hc' => by
    obtain ⟨c, hc, hshrinks⟩ := h.fibers f c' hc'
    refine ⟨c, hc, hshrinks.scope, fun id hid e he => .inl ?_, fun id hid e he => .inl ?_,
      fun x hx n' hn' => .inl ⟨hshrinks.children.subset hx, hnodes x n' hn'⟩⟩
    · have hin := hshrinks.handlers.subset hid
      rcases h.handlers id with heq | ⟨g, d, d', hd, hd', hidd, hidd'⟩
      · exact ⟨hin, by rw [← heq, he]⟩
      · -- the entry left the ledger of its only owner
        obtain rfl := ht.handlersApart f g c d hc hd id hin hidd
        obtain rfl := Option.some.inj (hc'.symm.trans hd')
        exact absurd hid hidd'
    · have hin := hshrinks.middleware.subset hid
      rcases h.middleware id with heq | ⟨g, d, d', hd, hd', hidd, hidd'⟩
      · exact ⟨hin, by rw [← heq, he]⟩
      · obtain rfl := ht.middlewareApart f g c d hc hd id hin hidd
        obtain rfl := Option.some.inj (hc'.symm.trans hd')
        exact absurd hid hidd'
  services := fun s k e he => .inl (h.services s k e he)

theorem placed_tame (ht : Topology rt) (hp : Placed rt) (h : Tame rt rt')
    (hnodes : ∀ x n', rt'.node x = some n' → ∃ n, rt.node x = some n ∧ n'.parent = n.parent) :
    Placed rt' where
  homed := fun f c' hc' => (places_tame ht h hnodes).homed hp hc'
  apart := fun f g c' d' hc' hd' x hx hx' => by
    obtain ⟨c, hc, hshrinks⟩ := h.fibers f c' hc'
    obtain ⟨d, hd, hshrinks'⟩ := h.fibers g d' hd'
    exact hp.apart f g c d hc hd x (hshrinks.children.subset hx) (hshrinks'.children.subset hx')

theorem Homed.mono (h : Homed rt f c)
    (hservices : ∀ s k e, rt'.services s k = some e → rt.services s k = some e)
    (hhandlers : ∀ id e, rt'.handlers id = some e → rt.handlers id = some e)
    (hmiddleware : ∀ id e, rt'.middleware id = some e → rt.middleware id = some e)
    (hnodes : ∀ x ∈ c.inner.childScopes, ∀ n', rt'.node x = some n' →
      ∃ n, rt.node x = some n ∧ n'.parent = n.parent) : Homed rt' f c where
  services := fun s k e he ho => h.services s k e (hservices s k e he) ho
  handlers := fun id hid e he => h.handlers id hid e (hhandlers id e he)
  middleware := fun id hid e he => h.middleware id hid e (hmiddleware id e he)
  children := fun x hx n' hn' => by
    obtain ⟨n, hn, hparent⟩ := hnodes x hx n' hn'
    exact hparent.trans (h.children x hx n hn)

theorem createScope_parents {parent : ScopeId} {hidden : Bool} (ht : Topology rt)
    (h : rt.createScope parent hidden = some rt') {x : ScopeId} (hx : x ≠ rt.nextScope) {n' : Node}
    (hn' : rt'.node x = some n') : ∃ n, rt.node x = some n ∧ n'.parent = n.parent := by
  obtain ⟨-, -, hnodes⟩ := node_createScope ht h
  rw [hnodes, if_neg hx] at hn'
  obtain ⟨n, hn, rfl⟩ := Option.map_eq_some_iff.mp hn'
  refine ⟨n, hn, ?_⟩
  split_ifs <;> rfl

theorem placed_createScope {parent : ScopeId} {hidden : Bool} (ht : Topology rt) (hp : Placed rt)
    (h : rt.createScope parent hidden = some rt') : Placed rt' := by
  obtain ⟨-, heq, -⟩ := createScope_spec h
  have hfibers : rt'.fibers = rt.fibers := by rw [heq]
  have hservices : rt'.services = rt.services := by rw [heq]
  have hhandlers : rt'.handlers = rt.handlers := by rw [heq]
  have hmiddleware : rt'.middleware = rt.middleware := by rw [heq]
  exact {
    homed := fun f c hc => by
      rw [hfibers] at hc
      refine (hp.homed f c hc).mono (fun s k e he => hservices ▸ he) (fun id e he => hhandlers ▸ he)
        (fun id e he => hmiddleware ▸ he) fun x hx n' hn' => ?_
      exact createScope_parents ht h (Nat.ne_of_lt ((ht.children f c hc).2 x hx)) hn'
    apart := fun f g c d hc hd => by
      rw [hfibers] at hc hd
      exact hp.apart f g c d hc hd }

theorem placed_insertFiber {scope : ScopeId} {plugin : Option PluginId}
    {descriptor : PluginDescriptor} {staged : Bool} (ht : Topology rt) (hp : Placed rt)
    (hnodes : ∀ x n', rt'.node x = some n' → ∃ n, rt.node x = some n ∧ n'.parent = n.parent)
    (h : rt.insertFiber scope plugin descriptor staged = some rt') : Placed rt' := by
  obtain ⟨p, heq, -⟩ := insertFiber_spec h
  have hfibers : rt'.fibers = Function.update rt.fibers rt.nextFiber (some (.created rt.nextFiber p
      scope descriptor (rt.nextGeneration p) staged)) := by rw [heq]
  have hservices : rt'.services = rt.services := by rw [heq]
  have hhandlers : rt'.handlers = rt.handlers := by rw [heq]
  have hmiddleware : rt'.middleware = rt.middleware := by rw [heq]
  have hcases : ∀ f c, rt'.fibers f = some c → rt.fibers f = some c ∨ f = rt.nextFiber ∧
      c = .created rt.nextFiber p scope descriptor (rt.nextGeneration p) staged := by
    intro f c hc
    rw [hfibers] at hc
    by_cases hf : f = rt.nextFiber
    · subst hf
      exact .inr ⟨rfl, by simpa [eq_comm] using hc⟩
    · exact .inl (by simpa [hf] using hc)
  exact {
    homed := fun f c hc => by
      rcases hcases f c hc with hc | ⟨rfl, rfl⟩
      · exact (hp.homed f c hc).mono (fun s k e he => hservices ▸ he)
          (fun id e he => hhandlers ▸ he) (fun id e he => hmiddleware ▸ he)
          fun x _ n' hn' => hnodes x n' hn'
      · exact {
          services := fun s k e he ho => by
            rw [hservices] at he
            exact absurd ho (Nat.ne_of_lt (ht.services s k e he))
          handlers := fun id hid => absurd hid List.not_mem_nil
          middleware := fun id hid => absurd hid List.not_mem_nil
          children := fun x hx => absurd hx List.not_mem_nil }
    apart := fun f g c d hc hd x hx hx' => by
      rcases hcases f c hc with hc | ⟨rfl, rfl⟩
      · rcases hcases g d hd with hd | ⟨rfl, rfl⟩
        · exact hp.apart f g c d hc hd x hx hx'
        · exact absurd hx' List.not_mem_nil
      · exact absurd hx List.not_mem_nil }

/-! ## Registrations -/

theorem registered_handlers {entry : Registration} {r : FiberMutable} {id : Nat}
    (h : id ∈ (FiberCell.registered entry r).invocationHandlers) :
    id ∈ r.invocationHandlers ∨ entry = .invocationHandler id := by
  cases entry with
  | invocationHandler n =>
    refine (List.mem_append.mp h).imp_right fun hid => ?_
    rw [List.mem_singleton.mp hid]
  | _ => exact .inl h

theorem registered_middleware {entry : Registration} {r : FiberMutable} {id : Nat}
    (h : id ∈ (FiberCell.registered entry r).invocationMiddleware) :
    id ∈ r.invocationMiddleware ∨ entry = .invocationMiddleware id := by
  cases entry with
  | invocationMiddleware n =>
    refine (List.mem_append.mp h).imp_right fun hid => ?_
    rw [List.mem_singleton.mp hid]
  | _ => exact .inl h

theorem registered_children {entry : Registration} {r : FiberMutable} {x : ScopeId}
    (h : x ∈ (FiberCell.registered entry r).childScopes) :
    x ∈ r.childScopes ∨ entry = .childScope x := by
  cases entry with
  | childScope n =>
    refine (List.mem_append.mp h).imp_right fun hx => ?_
    rw [List.mem_singleton.mp hx]
  | _ => exact .inl h

theorem placed_register {entry : Registration} (ht : Topology rt) (hp : Placed rt)
    (hc : rt.fibers f = some c)
    (hfibers : rt'.fibers = Function.update rt.fibers f
      (some { c with inner := FiberCell.registered entry c.inner }))
    (hservices : ∀ s k e, rt'.services s k = some e → rt.services s k = some e ∨
      e.scope = s ∧ e.owner = f ∧ s = c.inner.scope)
    (hhandlers : ∀ id e, rt'.handlers id = some e →
      rt.handlers id = some e ∧ entry ≠ .invocationHandler id ∨
        rt.nextHandler ≤ id ∧ e.scope = c.inner.scope)
    (hmiddleware : ∀ id e, rt'.middleware id = some e →
      rt.middleware id = some e ∧ entry ≠ .invocationMiddleware id ∨
        rt.nextMiddleware ≤ id ∧ e.scope = c.inner.scope)
    (hfresh : ∀ x, entry = .childScope x → rt.nextScope ≤ x)
    (hnodes : ∀ x n', rt'.node x = some n' →
      (∃ n, rt.node x = some n ∧ n'.parent = n.parent) ∧ entry ≠ .childScope x ∨
        rt.nextScope ≤ x ∧ n'.parent = some c.inner.scope) : Placed rt' := by
  have hcases : ∀ g d', rt'.fibers g = some d' → (g = f ∧
      d' = { c with inner := FiberCell.registered entry c.inner }) ∨ rt.fibers g = some d' := by
    intro g d' hd'
    rw [hfibers] at hd'
    by_cases hg : g = f
    · subst hg
      exact .inl ⟨rfl, by simpa [eq_comm] using hd'⟩
    · exact .inr (by simpa [hg] using hd')
  have hplaces : Places rt rt' := {
    fibers := fun g d' hd' => by
      rcases hcases g d' hd' with ⟨rfl, rfl⟩ | hd
      · refine ⟨c, hc, ?_, fun id hid e he => ?_, fun id hid e he => ?_, fun x hx n' hn' => ?_⟩
        · cases entry <;> rfl
        · exact (hhandlers id e he).imp
            (fun hwas => ⟨(registered_handlers hid).resolve_right hwas.2, hwas.1⟩) (·.2)
        · exact (hmiddleware id e he).imp
            (fun hwas => ⟨(registered_middleware hid).resolve_right hwas.2, hwas.1⟩) (·.2)
        · exact (hnodes x n' hn').imp
            (fun hwas => ⟨(registered_children hx).resolve_right hwas.2, hwas.1⟩) (·.2)
      · refine ⟨d', hd, rfl, fun id hid e he => .inl ⟨hid, ?_⟩, fun id hid e he => .inl ⟨hid, ?_⟩,
          fun x hx n' hn' => .inl ⟨hx, ?_⟩⟩
        · rcases hhandlers id e he with hwas | ⟨hnew, -⟩
          · exact hwas.1
          · exact absurd (ht.handlers g d' hd id hid) (Nat.not_lt_of_le hnew)
        · rcases hmiddleware id e he with hwas | ⟨hnew, -⟩
          · exact hwas.1
          · exact absurd (ht.middleware g d' hd id hid) (Nat.not_lt_of_le hnew)
        · rcases hnodes x n' hn' with hwas | ⟨hnew, -⟩
          · exact hwas.1
          · exact absurd ((ht.children g d' hd).2 x hx) (Nat.not_lt_of_le hnew)
    services := fun s k e he => by
      refine (hservices s k e he).imp id ?_
      rintro ⟨hs, howner, hscope⟩
      exact ⟨hs, c, by rw [howner, hc], hscope⟩ }
  refine ⟨fun g d' hd' => hplaces.homed hp hd', fun g g' d d' hd hd' x hx hx' => ?_⟩
  -- a Scope that was just created is in no other ledger
  have hnew : ∀ g d, rt.fibers g = some d → x ∈ d.inner.childScopes → entry ≠ .childScope x := by
    intro g d hd hx heq
    exact absurd ((ht.children g d hd).2 x hx) (Nat.not_lt_of_le (hfresh x heq))
  rcases hcases g d hd with ⟨rfl, rfl⟩ | hd <;> rcases hcases g' d' hd' with ⟨rfl, rfl⟩ | hd'
  · rfl
  · exact hp.apart g g' c d' hc hd' x
      ((registered_children hx).resolve_right (hnew g' d' hd' hx')) hx'
  · exact hp.apart g g' d c hd hc x hx
      ((registered_children hx').resolve_right (hnew g d hd hx))
  · exact hp.apart g g' d d' hd hd' x hx hx'

theorem placed_provide {scope : ScopeId} {key : ServiceSymbol} (ht : Topology rt) (hp : Placed rt)
    (hok : rt.Settled (.provide f scope key)) (h : rt.provide f scope key = some rt') :
    Placed rt' := by
  obtain ⟨c, rt₁, hc, -, h₁, rfl⟩ := provide_spec h
  obtain ⟨d, hd, -, -, rfl⟩ := registerEntry_spec h₁
  obtain rfl := Option.some.inj (hc.symm.trans hd)
  have hscope : c.inner.scope = scope := hok c hc
  refine placed_register ht hp hc rfl (fun s k e he => ?_) (fun id e he => .inl ⟨he, nofun⟩)
    (fun id e he => .inl ⟨he, nofun⟩) nofun fun x n' hn' => .inl ⟨⟨n', hn', rfl⟩, nofun⟩
  simp only [insertService] at he
  split_ifs at he with hslot
  · cases he
    exact .inr ⟨hslot.1.symm, rfl, hslot.1.trans hscope.symm⟩
  · exact .inl he

theorem placed_handle {scope : ScopeId} {key : InvocationKey} (ht : Topology rt) (hp : Placed rt)
    (hok : rt.Settled (.handle f scope key)) (h : rt.handle f scope key = some rt') :
    Placed rt' := by
  obtain ⟨c, rt₁, hc, -, h₁, rfl⟩ := handle_spec h
  obtain ⟨d, hd, -, -, rfl⟩ := registerEntry_spec h₁
  obtain rfl := Option.some.inj (hc.symm.trans hd)
  have hscope : c.inner.scope = scope := hok c hc
  refine placed_register ht hp hc rfl (fun s k e he => .inl he) (fun id e he => ?_)
    (fun id e he => .inl ⟨he, nofun⟩) nofun fun x n' hn' => .inl ⟨⟨n', hn', rfl⟩, nofun⟩
  by_cases hid : id = rt.nextHandler
  · subst hid
    obtain rfl : e = ⟨scope, key, gateOf c⟩ := by simpa [eq_comm] using he
    exact .inr ⟨le_rfl, hscope.symm⟩
  · simp only [Function.update_of_ne hid] at he
    refine .inl ⟨he, fun heq => hid ?_⟩
    cases heq
    rfl

theorem placed_intercept {scope : ScopeId} {key : InvocationKey} (ht : Topology rt) (hp : Placed rt)
    (hok : rt.Settled (.intercept f scope key)) (h : rt.intercept f scope key = some rt') :
    Placed rt' := by
  obtain ⟨c, rt₁, hc, h₁, rfl⟩ := intercept_spec h
  obtain ⟨d, hd, -, -, rfl⟩ := registerEntry_spec h₁
  obtain rfl := Option.some.inj (hc.symm.trans hd)
  have hscope : c.inner.scope = scope := hok c hc
  refine placed_register ht hp hc rfl (fun s k e he => .inl he) (fun id e he => .inl ⟨he, nofun⟩)
    (fun id e he => ?_) nofun fun x n' hn' => .inl ⟨⟨n', hn', rfl⟩, nofun⟩
  by_cases hid : id = rt.nextMiddleware
  · subst hid
    obtain rfl : e = ⟨scope, key, gateOf c, rt.nextMiddleware⟩ := by simpa [eq_comm] using he
    exact .inr ⟨le_rfl, hscope.symm⟩
  · simp only [Function.update_of_ne hid] at he
    refine .inl ⟨he, fun heq => hid ?_⟩
    cases heq
    rfl

theorem placed_ownScope {scope : ScopeId} (ht : Topology rt) (hp : Placed rt)
    (hok : rt.Settled (.ownScope f scope)) (h : rt.ownScope f scope = some rt') : Placed rt' := by
  obtain ⟨rt₁, h₁, h⟩ := ownScope_spec h
  obtain ⟨-, -, hnodes⟩ := node_createScope ht h₁
  obtain ⟨-, heq, -⟩ := createScope_spec h₁
  have hfibers : rt₁.fibers = rt.fibers := by rw [heq]
  have hservices : rt₁.services = rt.services := by rw [heq]
  have hhandlers : rt₁.handlers = rt.handlers := by rw [heq]
  have hmiddleware : rt₁.middleware = rt.middleware := by rw [heq]
  obtain ⟨c, hc, -, -, rfl⟩ := registerEntry_spec h
  rw [hfibers] at hc
  have hscope : c.inner.scope = scope := hok c hc
  refine placed_register ht hp hc (congrArg (Function.update · f _) hfibers)
    (fun s k e he => .inl (hservices ▸ he)) (fun id e he => .inl ⟨hhandlers ▸ he, nofun⟩)
    (fun id e he => .inl ⟨hmiddleware ▸ he, nofun⟩) (fun x heq => ?_) fun x n' hn' => ?_
  · cases heq
    exact le_rfl
  · by_cases hx : x = rt.nextScope
    · subst hx
      have hnew := (hnodes rt.nextScope).symm.trans hn'
      rw [if_pos rfl] at hnew
      cases hnew
      exact .inr ⟨le_rfl, congrArg some hscope.symm⟩
    · refine .inl ⟨createScope_parents ht h₁ hx hn', fun heq => hx ?_⟩
      cases heq
      rfl

/-! ## The cutover -/

theorem placed_cut {old staged : FiberId} {staging target : ScopeId} {oldCell c : FiberCell}
    (ht : Topology rt) (hp : Placed rt) (hcut : CutFrom rt old staged staging target oldCell c)
    (hnodes : ∀ x, rt'.node x =
      (rt.node x).map (Node.relocated staging target staged c.inner.childScopes x))
    (hnow : rt' = (rt.cutOver ⟨staging, target, staged, old, c.inner.childScopes⟩ oldCell
      c).setFiber old (superseded oldCell)) : Placed rt' := by
  obtain ⟨-, hfiled⟩ := ht.staged staged c hcut.stagedFiber hcut.flag
  have hscope := hcut.scope
  have hprovided : ∀ k, c.Holds k → k ∈ c.inner.provided := fun _ =>
    (ht.guarded staged c hcut.stagedFiber).provided (live_of_staged hcut.gate)
  -- a Fiber is the staged one, or has the ledgers and the Scope it had
  have hcases : ∀ g d', rt'.fibers g = some d' →
      g = staged ∧ d' = { c with inner := c.inner.cutover target } ∨
      g ≠ staged ∧ ∃ d, rt.fibers g = some d ∧ d'.inner.scope = d.inner.scope ∧
        d'.inner.invocationHandlers = d.inner.invocationHandlers ∧
        d'.inner.invocationMiddleware = d.inner.invocationMiddleware ∧
        d'.inner.childScopes = d.inner.childScopes := by
    intro g d' hd'
    subst hnow
    by_cases hold : g = old
    · subst hold
      obtain rfl : superseded oldCell = d' := by simpa [setFiber] using hd'
      exact .inr ⟨Ne.symm hcut.ne, oldCell, hcut.oldFiber, rfl, rfl, rfl, rfl⟩
    · by_cases hg : g = staged
      · subst hg
        exact .inl ⟨rfl, by simpa [setFiber, cutOver, hold, eq_comm] using hd'⟩
      · exact .inr ⟨hg, d', by simpa [setFiber, cutOver, hold, hg] using hd', rfl, rfl, rfl, rfl⟩
  have hservices : ∀ s k e, rt'.services s k = some e →
      (k ∈ c.inner.provided ∧ s = target ∧ e.scope = target ∧ e.owner = staged) ∨
        rt.services s k = some e ∧ ¬ (k ∈ c.inner.provided ∧ s = staging) := by
    intro s k e he
    subst hnow
    simp only [setFiber, cutOver, movedServices] at he
    split_ifs at he with hto hfrom
    · obtain ⟨e₀, he₀, rfl⟩ := Option.map_eq_some_iff.mp he
      obtain ⟨e₁, he₁, howner⟩ := hcut.services k hto.1
      obtain rfl := Option.some.inj (he₀.symm.trans he₁)
      exact .inl ⟨hto.1, hto.2, rfl, howner⟩
    · exact .inr ⟨he, hfrom⟩
  have hhandlers : ∀ id e, rt'.handlers id = some e → if id ∈ c.inner.invocationHandlers then
      e.scope = target else rt.handlers id = some e := by
    intro id e he
    subst hnow
    simp only [setFiber, cutOver] at he
    split_ifs at he ⊢
    · obtain ⟨e₀, -, rfl⟩ := Option.map_eq_some_iff.mp he
      rfl
    · exact he
  have hmiddleware : ∀ id e, rt'.middleware id = some e → if id ∈ c.inner.invocationMiddleware then
      e.scope = target else rt.middleware id = some e := by
    intro id e he
    subst hnow
    simp only [setFiber, cutOver] at he
    split_ifs at he ⊢
    · obtain ⟨e₀, -, rfl⟩ := Option.map_eq_some_iff.mp he
      rfl
    · exact he
  exact {
    homed := fun g d' hd' => by
      rcases hcases g d' hd' with ⟨rfl, rfl⟩ | ⟨hne, d, hd, hs, hh, hm, hch⟩
      · exact {
          services := fun s k e he ho => by
            rcases hservices s k e he with ⟨-, rfl, hto, -⟩ | ⟨hwas, hout⟩
            · exact ⟨rfl, hto⟩
            · obtain ⟨rfl, hin⟩ := hfiled.services s k e hwas ho
              exact absurd ⟨hprovided k hin, hscope.symm⟩ hout
          handlers := fun id hid e he => by
            have hto := hhandlers id e he
            rwa [if_pos (show id ∈ c.inner.invocationHandlers from hid)] at hto
          middleware := fun id hid e he => by
            have hto := hmiddleware id e he
            rwa [if_pos (show id ∈ c.inner.invocationMiddleware from hid)] at hto
          children := fun x hx n' hn' => by
            rw [hnodes] at hn'
            obtain ⟨n, -, rfl⟩ := Option.map_eq_some_iff.mp hn'
            exact if_pos hx }
      · have hhome := hp.homed g d hd
        exact {
          services := fun s k e he ho => by
            rw [hs]
            rcases hservices s k e he with ⟨-, -, -, howner⟩ | ⟨hwas, -⟩
            · exact absurd (ho.symm.trans howner) hne
            · exact hhome.services s k e hwas ho
          handlers := fun id hid e he => by
            rw [hs]
            rw [hh] at hid
            have hout : id ∉ c.inner.invocationHandlers := fun hin =>
              hne (ht.handlersApart g staged d c hd hcut.stagedFiber id hid hin)
            exact hhome.handlers id hid e (by simpa only [if_neg hout] using hhandlers id e he)
          middleware := fun id hid e he => by
            rw [hs]
            rw [hm] at hid
            have hout : id ∉ c.inner.invocationMiddleware := fun hin =>
              hne (ht.middlewareApart g staged d c hd hcut.stagedFiber id hid hin)
            exact hhome.middleware id hid e (by simpa only [if_neg hout] using hmiddleware id e he)
          children := fun x hx n' hn' => by
            rw [hs]
            rw [hch] at hx
            rw [hnodes] at hn'
            obtain ⟨n, hn, rfl⟩ := Option.map_eq_some_iff.mp hn'
            have hout : x ∉ c.inner.childScopes := fun hin =>
              hne (hp.apart g staged d c hd hcut.stagedFiber x hx hin)
            exact (if_neg hout).trans (hhome.children x hx n hn) }
    apart := fun g g' d d' hd hd' x hx hx' => by
      have hwas : ∀ g d, rt'.fibers g = some d → ∃ e, rt.fibers g = some e ∧
          d.inner.childScopes = e.inner.childScopes := by
        intro g d hd
        rcases hcases g d hd with ⟨rfl, rfl⟩ | ⟨-, e, he, -, -, -, hch⟩
        · exact ⟨c, hcut.stagedFiber, rfl⟩
        · exact ⟨e, he, hch⟩
      obtain ⟨e, he, heq⟩ := hwas g d hd
      obtain ⟨e', he', heq'⟩ := hwas g' d' hd'
      exact hp.apart g g' e e' he he' x (heq ▸ hx) (heq' ▸ hx') }

/-! ## Over every run -/

theorem Reshapes.parents (h : Reshapes rt l rt') (hcreate : ∀ s b, l ≠ .createScope s b)
    (hown : ∀ f s, l ≠ .ownScope f s) (hcut : ∀ a b s t, l ≠ .commitReload a b s t) {x : ScopeId}
    {n' : Node} (hn' : rt'.node x = some n') : ∃ n, rt.node x = some n ∧ n'.parent = n.parent := by
  have hmap : ∀ g : Node → Node, rt'.node x = (rt.node x).map g → (∀ n, (g n).parent = n.parent) →
      ∃ n, rt.node x = some n ∧ n'.parent = n.parent := by
    intro g hg hparent
    obtain ⟨n, hn, rfl⟩ := Option.map_eq_some_iff.mp (hg.symm.trans hn')
    exact ⟨n, hn, hparent n⟩
  cases h with
  | kept _ hnodes =>
    have hsame := hnodes x
    rw [hn'] at hsame
    generalize rt.node x = o at hsame ⊢
    cases hsame with
    | some hsame => exact ⟨_, rfl, hsame.parent⟩
  | created parent hidden q hlabel =>
    rcases hlabel with h | ⟨f, h⟩
    · exact absurd h (hcreate _ _)
    · exact absurd h (hown _ _)
  | closed s r result _ _ _ _ hnodes => exact hmap _ (hnodes x) fun n => rfl
  | listed scope _ _ _ _ _ hnodes =>
    exact hmap _ (hnodes x) fun n => by split_ifs <;> rfl
  | delisted f a scope _ _ _ _ _ _ _ hnodes =>
    exact hmap _ (hnodes x) fun n => by
      unfold Node.delisted
      split_ifs <;> rfl
  | forgotten f _ _ _ hnodes => exact hmap _ (hnodes x) fun n => rfl
  | swept s n _ _ _ _ _ _ _ hnodes =>
    rw [hnodes] at hn'
    split_ifs at hn'
    exact ⟨n', hn', rfl⟩
  | moved old staged staging target oldCell c hlabel => exact absurd hlabel (hcut _ _ _ _)

theorem placed_step (ht : Topology rt) (hb : Busy rt) (hp : Placed rt) (hok : rt.Settled l)
    (h : rt.step l = some rt') : Placed rt' := by
  have hreshapes := step_reshapes ht hb h
  cases l <;> simp only [step] at h
  case fiber =>
    exact placed_tame ht hp (tame_fiberStep h) fun x n' => hreshapes.parents (by simp) (by simp) (by simp)
  case scope s a =>
    split at h <;> try contradiction
    rename_i r hr
    obtain ⟨pc, -, h⟩ := Option.bind_eq_some_iff.mp h
    exact placed_tame ht hp (tame_stepScope hr h) fun x n' => hreshapes.parents (by simp) (by simp) (by simp)
  case disposeScope s b =>
    cases h
    exact placed_tame ht hp (tame_requestScopeDisposal rt s b)
      fun x n' => hreshapes.parents (by simp) (by simp) (by simp)
  case createScope => exact placed_createScope ht hp h
  case install =>
    exact placed_insertFiber ht hp (fun x n' => hreshapes.parents (by simp) (by simp) (by simp)) h
  case provide => exact placed_provide ht hp hok h
  case handle => exact placed_handle ht hp hok h
  case intercept => exact placed_intercept ht hp hok h
  case ownScope => exact placed_ownScope ht hp hok h
  case commitReload old staged staging target =>
    rcases commitReload_cases ht h with hsame | ⟨oldCell, c, hcut, rfl⟩
    · refine placed_tame ht hp hsame.tame fun x n' hn' => ?_
      have hrel := node_same (hsame.scopes x)
      rw [hn'] at hrel
      generalize rt.node x = o at hrel ⊢
      cases hrel with
      | some hrel => exact ⟨_, rfl, hrel.parent⟩
    · exact placed_cut ht hp hcut (node_cutOver _ oldCell c (superseded oldCell)) rfl
  case sweepFiber =>
    exact placed_tame ht hp (tame_sweepFiber h) fun x n' => hreshapes.parents (by simp) (by simp) (by simp)
  case sweepScope =>
    exact placed_tame ht hp (tame_sweepScope h) fun x n' => hreshapes.parents (by simp) (by simp) (by simp)
  case beginShutdown =>
    cases h
    exact ⟨fun f c hc => (hp.homed f c hc).mono (fun _ _ _ h => h) (fun _ _ h => h) (fun _ _ h => h)
      fun x _ n' hn' => ⟨n', hn', rfl⟩, hp.apart⟩

/-- **Registrations live in the Scope of their owner**, in every run in which each of them is filed
under the Scope that its Fiber is bound to at that moment. -/
theorem registrations_at_home (h : Reach step Settled .new rt) (hc : rt.fibers f = some c) :
    Homed rt f c := by
  have hall : Topology rt ∧ Busy rt ∧ Placed rt := by
    refine h.invariant (I := fun rt => Topology rt ∧ Busy rt ∧ Placed rt)
      ⟨topology_new, busy_new, placed_new⟩ ?_
    rintro rt l rt' ⟨ht, hb, hp⟩ hok hstep
    exact ⟨topology_step ht hstep, busy_step ht hb hstep, placed_step ht hb hp hok hstep⟩
  exact hall.2.2.homed f c hc

/-- Fiber 1 replaces Fiber 0 of the root Scope, staged in Scope 1 where it makes `calls`. -/
def replaced (calls : List RuntimeLabel) : List RuntimeLabel :=
  installed 0 0 none ⟨[], [7], .Restart⟩ false [.provide 0 0 7] ++ reloading 0 ++
  [.createScope 0 true] ++ installed 1 1 (some 0) ⟨[], [7], .Restart⟩ true calls

/-- A reload moves a service, a handler, a middleware and a child Scope to the target. -/
theorem registrations_at_home_reload :
    ∃ rt c, Reach step Settled .new rt ∧ rt.fibers 1 = some c ∧ c.inner.scope = 0 ∧
      c.inner.invocationHandlers = [0] ∧ c.inner.childScopes = [2] ∧ Homed rt 1 c := by
  have hrun : ((runIf step Settled .new (replaced [.provide 1 1 7, .handle 1 1 0, .intercept 1 1 0,
      .ownScope 1 1] ++ [.commitReload 0 1 1 0])).any fun rt => (rt.fibers 1).any fun c =>
        c.inner.scope = 0 ∧ c.inner.invocationHandlers = [0] ∧ c.inner.childScopes = [2]) = true := by
    decide
  obtain ⟨rt, hrt, hrun⟩ := (Option.any_eq_true _ _).mp hrun
  obtain ⟨c, hc, hcell⟩ := (Option.any_eq_true _ _).mp hrun
  obtain ⟨hscope, hhandlers, hchildren⟩ := of_decide_eq_true hcell
  have hreach := reach_of_runIf hrt
  exact ⟨rt, c, hreach, hc, hscope, hhandlers, hchildren, registrations_at_home hreach hc⟩

/-- Four calls of Fiber 1 are admitted while the Fiber is staged and applied after the cutover: the
service, the handler, the middleware and the child Scope stay behind in the staging Scope. -/
theorem calls_left_behind :
    ∃ rt c, Reach step anyStep .new rt ∧ rt.fibers 1 = some c ∧ c.inner.state = .Active ∧
      c.inner.scope = 0 ∧ (∃ e, rt.services 1 7 = some e ∧ e.owner = 1) ∧
      (∃ id ∈ c.inner.invocationHandlers, ∃ e, rt.handlers id = some e ∧ e.scope = 1) ∧
      (∃ id ∈ c.inner.invocationMiddleware, ∃ e, rt.middleware id = some e ∧ e.scope = 1) ∧
      ∃ x ∈ c.inner.childScopes, ∃ r, rt.scope x = some r ∧ r.state = .Active ∧
        r.parent = some 1 := by
  have hrun : ((run step .new (replaced (.provide 1 1 7 :: List.replicate 4 (.fiber 1 .acquireLease)) ++
      [.commitReload 0 1 1 0, .provide 1 1 7, .handle 1 1 0, .intercept 1 1 0, .ownScope 1 1] ++
      List.replicate 4 (.fiber 1 .dropLease))).any fun rt => (rt.fibers 1).any fun c =>
        c.inner.state = .Active ∧ c.inner.scope = 0 ∧ (rt.services 1 7).any (fun e => e.owner = 1) ∧
          0 ∈ c.inner.invocationHandlers ∧ 0 ∈ c.inner.invocationMiddleware ∧
          2 ∈ c.inner.childScopes ∧ (rt.handlers 0).any (fun e => e.scope = 1) ∧
          (rt.middleware 0).any (fun e => e.scope = 1) ∧
          (rt.scope 2).any fun r => r.state = .Active ∧ r.parent = some 1) = true := by
    decide
  obtain ⟨rt, hrt, hrun⟩ := (Option.any_eq_true _ _).mp hrun
  obtain ⟨c, hc, hcell⟩ := (Option.any_eq_true _ _).mp hrun
  obtain ⟨hactive, hscope, hs, hhandler, hmiddleware, hchild, hh, hm, hch⟩ := of_decide_eq_true hcell
  obtain ⟨e₀, he₀, hleft₀⟩ := (Option.any_eq_true _ _).mp hs
  obtain ⟨e, he, hleft⟩ := (Option.any_eq_true _ _).mp hh
  obtain ⟨e', he', hleft'⟩ := (Option.any_eq_true _ _).mp hm
  obtain ⟨r, hr, hleft''⟩ := (Option.any_eq_true _ _).mp hch
  obtain ⟨hstate, hparent⟩ := of_decide_eq_true hleft''
  exact ⟨rt, c, reach_of_run hrt, hc, hactive, hscope, ⟨e₀, he₀, of_decide_eq_true hleft₀⟩,
    ⟨0, hhandler, e, he, of_decide_eq_true hleft⟩,
    ⟨0, hmiddleware, e', he', of_decide_eq_true hleft'⟩, 2, hchild, r, hr, hstate, hparent⟩

end Runtime

end Cordis
