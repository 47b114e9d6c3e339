import Cordis.Library.Machine
import Cordis.Proof.Reload
import Cordis.Proof.Tame

/-!
# Where a staged Fiber has filed its registrations

Over every run, whatever a staged Fiber has registered is filed under its own staging Scope, and the
ledgers of different Fibers name different registrations. A tame section keeps this; the others add
one fresh entry (`Grows`), insert a Fiber, or are the cutover.
-/

namespace Cordis

open Machine

namespace Runtime

variable {rt rt' : Runtime} {f : FiberId} {c c' : FiberCell}

/-- Everything in the registries was handed out by a counter, ledgers of different Fibers are
disjoint, and a staged Fiber has filed everything under its staging Scope. -/
structure Topology (rt : Runtime) : Prop where
  fibers : ∀ f c, rt.fibers f = some c → f < rt.nextFiber
  guarded : ∀ f c, rt.fibers f = some c → c.Guarded
  scopes : ∀ s c, rt.scopes s = some c → s < rt.nextScope ∧ c.children.Nodup ∧
    (∀ x ∈ c.children, x < rt.nextScope) ∧ ∀ f ∈ c.fibers, f < rt.nextFiber
  services : ∀ s k e, rt.services s k = some e → e.owner < rt.nextFiber
  declared : ∀ s k, ∀ f ∈ rt.declared s k, f < rt.nextFiber
  handlers : ∀ f c, rt.fibers f = some c → ∀ id ∈ c.inner.invocationHandlers, id < rt.nextHandler
  middleware : ∀ f c, rt.fibers f = some c →
    ∀ id ∈ c.inner.invocationMiddleware, id < rt.nextMiddleware
  children : ∀ f c, rt.fibers f = some c → c.inner.childScopes.Nodup ∧
    ∀ s ∈ c.inner.childScopes, s < rt.nextScope
  handlersApart : ∀ f g c d, rt.fibers f = some c → rt.fibers g = some d →
    ∀ id ∈ c.inner.invocationHandlers, id ∈ d.inner.invocationHandlers → f = g
  middlewareApart : ∀ f g c d, rt.fibers f = some c → rt.fibers g = some d →
    ∀ id ∈ c.inner.invocationMiddleware, id ∈ d.inner.invocationMiddleware → f = g
  staged : ∀ f c, rt.fibers f = some c → c.inner.staged = true →
    c.inner.scope = c.origin ∧ Filed rt f c

theorem topology_new : Topology .new where
  fibers := fun f c h => by cases h
  guarded := fun f c h => by cases h
  scopes := fun s c h => by
    simp only [new] at h
    split_ifs at h with hs
    cases h
    subst hs
    exact ⟨by decide, by simp [ScopeCell.created], by simp [ScopeCell.created],
      by simp [ScopeCell.created]⟩
  services := fun s k e h => by cases h
  declared := fun s k f h => by cases h
  handlers := fun f c h => by cases h
  middleware := fun f c h => by cases h
  children := fun f c h => by cases h
  handlersApart := fun f g c d h => by cases h
  middlewareApart := fun f g c d h => by cases h
  staged := fun f c h => by cases h

theorem topology_tame (ht : Topology rt) (h : Tame rt rt') : Topology rt' where
  fibers := fun f c' hc' => by
    obtain ⟨c, hc, -⟩ := h.fibers f c' hc'
    rw [h.nextFiber]
    exact ht.fibers f c hc
  guarded := fun f c' hc' => by
    obtain ⟨c, hc, hshrinks⟩ := h.fibers f c' hc'
    exact hshrinks.guarded (ht.guarded f c hc)
  scopes := fun s c' hc' => by
    obtain ⟨c, hc, hshrinks⟩ := h.scopes s c' hc'
    obtain ⟨hlt, hnodup, hbelow, hmembers⟩ := ht.scopes s c hc
    rw [h.nextScope, h.nextFiber]
    refine ⟨hlt, ?_, fun x hx => hbelow x (hshrinks.children.subset hx),
      fun f hf => hmembers f (hshrinks.fibers.subset hf)⟩
    obtain ⟨l, hperm, hsub⟩ := hshrinks.children
    exact hperm.nodup_iff.mp (hnodup.sublist hsub)
  services := fun s k e he => by
    rw [h.nextFiber]
    exact ht.services s k e (h.services s k e he)
  declared := fun s k f hf => by
    rw [h.nextFiber]
    rcases h.declared s k f hf with hwas | ⟨c, hc, -⟩
    · exact ht.declared s k f hwas
    · exact ht.fibers f c hc
  handlers := fun f c' hc' id hid => by
    obtain ⟨c, hc, hshrinks⟩ := h.fibers f c' hc'
    rw [h.nextHandler]
    exact ht.handlers f c hc id (hshrinks.handlers.subset hid)
  middleware := fun f c' hc' id hid => by
    obtain ⟨c, hc, hshrinks⟩ := h.fibers f c' hc'
    rw [h.nextMiddleware]
    exact ht.middleware f c hc id (hshrinks.middleware.subset hid)
  children := fun f c' hc' => by
    obtain ⟨c, hc, hshrinks⟩ := h.fibers f c' hc'
    obtain ⟨hnodup, hbelow⟩ := ht.children f c hc
    rw [h.nextScope]
    exact ⟨hnodup.sublist hshrinks.children, fun s hs => hbelow s (hshrinks.children.subset hs)⟩
  handlersApart := fun f g c' d' hc' hd' id hid hid' => by
    obtain ⟨c, hc, hshrinks⟩ := h.fibers f c' hc'
    obtain ⟨d, hd, hshrinks'⟩ := h.fibers g d' hd'
    exact ht.handlersApart f g c d hc hd id (hshrinks.handlers.subset hid)
      (hshrinks'.handlers.subset hid')
  middlewareApart := fun f g c' d' hc' hd' id hid hid' => by
    obtain ⟨c, hc, hshrinks⟩ := h.fibers f c' hc'
    obtain ⟨d, hd, hshrinks'⟩ := h.fibers g d' hd'
    exact ht.middlewareApart f g c d hc hd id (hshrinks.middleware.subset hid)
      (hshrinks'.middleware.subset hid')
  staged := fun f c' hc' hs => by
    obtain ⟨c, hc, hshrinks⟩ := h.fibers f c' hc'
    obtain ⟨horigin, hfiled⟩ := ht.staged f c hc (hshrinks.staged hs)
    refine ⟨by rw [hshrinks.scope, hshrinks.origin, horigin], ?_⟩
    exact {
      services := fun s k e he ho => by
        obtain ⟨hscope, hk⟩ := hfiled.services s k e (h.services s k e he) ho
        subst hscope
        exact ⟨hshrinks.scope.symm, h.provided f c c' hc hc' (ht.guarded f c hc) k hk e he ho⟩
      handlers := fun id hid => by
        have hin := hshrinks.handlers.subset hid
        obtain ⟨e, he, hscope⟩ := hfiled.handlers id hin
        rcases h.handlers id with heq | ⟨g, d, d', hd, hd', hidd, hidd'⟩
        · exact ⟨e, by rw [heq, he], by rw [hscope, hshrinks.scope]⟩
        · -- the entry left the ledger of its only owner
          obtain rfl := ht.handlersApart f g c d hc hd id hin hidd
          rw [hc'] at hd'
          cases hd'
          exact absurd hid hidd'
      middleware := fun id hid => by
        have hin := hshrinks.middleware.subset hid
        obtain ⟨e, he, hscope⟩ := hfiled.middleware id hin
        rcases h.middleware id with heq | ⟨g, d, d', hd, hd', hidd, hidd'⟩
        · exact ⟨e, by rw [heq, he], by rw [hscope, hshrinks.scope]⟩
        · obtain rfl := ht.middlewareApart f g c d hc hd id hin hidd
          rw [hc'] at hd'
          cases hd'
          exact absurd hid hidd'
      declared := fun s k hf => by
        rw [hshrinks.scope, hshrinks.descriptor]
        rcases h.declared s k f hf with hwas | ⟨d, hd, hs, hk⟩
        · exact hfiled.declared s k hwas
        · rw [hc] at hd
          cases hd
          exact ⟨hs.trans horigin.symm, hk⟩
      listed := fun s r' hr' hf => by
        obtain ⟨r, hr, hlist⟩ := h.scopes s r' hr'
        rw [hshrinks.scope]
        exact hfiled.listed s r hr (hlist.fibers.subset hf)
      children := hfiled.children.sublist hshrinks.children }

/-! ## Context calls -/

/-- A step that files at most one fresh entry of Fiber `f`, or creates a Scope. -/
structure Grows (rt rt' : Runtime) (f : FiberId) : Prop where
  nextFiber : rt'.nextFiber = rt.nextFiber
  nextScope : rt.nextScope ≤ rt'.nextScope
  nextHandler : rt.nextHandler ≤ rt'.nextHandler
  nextMiddleware : rt.nextMiddleware ≤ rt'.nextMiddleware
  fibers : ∀ g d', rt'.fibers g = some d' → ∃ d, rt.fibers g = some d ∧ d'.origin = d.origin ∧
    d'.inner.scope = d.inner.scope ∧ d'.inner.descriptor = d.inner.descriptor ∧
    d'.inner.staged = d.inner.staged ∧ (d.Guarded → d'.Guarded) ∧ (∀ k, d.Holds k → d'.Holds k) ∧
    (∀ id ∈ d'.inner.invocationHandlers, id ∈ d.inner.invocationHandlers ∨
      g = f ∧ id = rt.nextHandler ∧ id < rt'.nextHandler) ∧
    (∀ id ∈ d'.inner.invocationMiddleware, id ∈ d.inner.invocationMiddleware ∨
      g = f ∧ id = rt.nextMiddleware ∧ id < rt'.nextMiddleware) ∧
    (d'.inner.childScopes = d.inner.childScopes ∨
      d'.inner.childScopes = d.inner.childScopes ++ [rt.nextScope] ∧ rt.nextScope < rt'.nextScope)
  scopes : ∀ s r', rt'.scopes s = some r' →
    (s = rt.nextScope ∧ rt.nextScope < rt'.nextScope ∧ r'.children = [] ∧ r'.fibers = []) ∨
    ∃ r, rt.scopes s = some r ∧ r'.fibers = r.fibers ∧ (r'.children = r.children ∨
      r'.children = r.children ++ [rt.nextScope] ∧ rt.nextScope < rt'.nextScope)
  services : ∀ s k e, rt'.services s k = some e → rt.services s k = some e ∨ e.owner = f ∧
    ∃ d d', rt.fibers f = some d ∧ rt'.fibers f = some d' ∧
      (s = d.inner.scope ∨ s = d.origin) ∧ d'.Holds k
  declared : rt'.declared = rt.declared
  handlers : ∀ id, id ≠ rt.nextHandler → rt'.handlers id = rt.handlers id
  handler : rt.nextHandler < rt'.nextHandler → ∀ d d', rt.fibers f = some d →
    rt'.fibers f = some d' → rt.nextHandler ∈ d'.inner.invocationHandlers →
      ∃ e, rt'.handlers rt.nextHandler = some e ∧ (e.scope = d.inner.scope ∨ e.scope = d.origin)
  middleware : ∀ id, id ≠ rt.nextMiddleware → rt'.middleware id = rt.middleware id
  intercept : rt.nextMiddleware < rt'.nextMiddleware → ∀ d d', rt.fibers f = some d →
    rt'.fibers f = some d' → rt.nextMiddleware ∈ d'.inner.invocationMiddleware →
      ∃ e, rt'.middleware rt.nextMiddleware = some e ∧
        (e.scope = d.inner.scope ∨ e.scope = d.origin)

theorem fresh_append {l l' : List Nat} {n m : Nat} (hnm : n ≤ m) (hnodup : l.Nodup)
    (hbelow : ∀ x ∈ l, x < n) (h : l' = l ∨ l' = l ++ [n] ∧ n < m) :
    l'.Nodup ∧ ∀ x ∈ l', x < m := by
  rcases h with rfl | ⟨rfl, hlt⟩
  · exact ⟨hnodup, fun x hx => Nat.lt_of_lt_of_le (hbelow x hx) hnm⟩
  · refine ⟨?_, fun x hx => ?_⟩
    · refine List.nodup_append.mpr ⟨hnodup, List.nodup_singleton n, fun x hx y hy => ?_⟩
      have hxn := hbelow x hx
      rw [List.mem_singleton] at hy
      omega
    · rcases List.mem_append.mp hx with hx | hx
      · have hxn := hbelow x hx
        omega
      · rw [List.mem_singleton] at hx
        omega

theorem topology_grows (ht : Topology rt) (h : Grows rt rt' f) : Topology rt' where
  fibers := fun g d' hd' => by
    obtain ⟨d, hd, -⟩ := h.fibers g d' hd'
    rw [h.nextFiber]
    exact ht.fibers g d hd
  guarded := fun g d' hd' => by
    obtain ⟨d, hd, -, -, -, -, hguarded, -⟩ := h.fibers g d' hd'
    exact hguarded (ht.guarded g d hd)
  scopes := fun s r' hr' => by
    have hle := h.nextScope
    rw [h.nextFiber]
    rcases h.scopes s r' hr' with ⟨rfl, hlt, hchildren, hfibers⟩ | ⟨r, hr, hfibers, hchildren⟩
    · rw [hchildren, hfibers]
      exact ⟨hlt, List.nodup_nil, by simp, by simp⟩
    · obtain ⟨hlt, hnodup, hbelow, hmembers⟩ := ht.scopes s r hr
      obtain ⟨hnodup', hbelow'⟩ := fresh_append hle hnodup hbelow hchildren
      rw [hfibers]
      exact ⟨Nat.lt_of_lt_of_le hlt hle, hnodup', hbelow', hmembers⟩
  services := fun s k e he => by
    rw [h.nextFiber]
    rcases h.services s k e he with he | ⟨rfl, d, -, hd, -⟩
    · exact ht.services s k e he
    · exact ht.fibers e.owner d hd
  declared := by
    rw [h.declared, h.nextFiber]
    exact ht.declared
  handlers := fun g d' hd' id hid => by
    obtain ⟨d, hd, -, -, -, -, -, -, hnew, -⟩ := h.fibers g d' hd'
    rcases hnew id hid with hin | ⟨-, -, hlt⟩
    · exact Nat.lt_of_lt_of_le (ht.handlers g d hd id hin) h.nextHandler
    · exact hlt
  middleware := fun g d' hd' id hid => by
    obtain ⟨d, hd, -, -, -, -, -, -, -, hnew, -⟩ := h.fibers g d' hd'
    rcases hnew id hid with hin | ⟨-, -, hlt⟩
    · exact Nat.lt_of_lt_of_le (ht.middleware g d hd id hin) h.nextMiddleware
    · exact hlt
  children := fun g d' hd' => by
    obtain ⟨d, hd, -, -, -, -, -, -, -, -, hchildren⟩ := h.fibers g d' hd'
    obtain ⟨hnodup, hbelow⟩ := ht.children g d hd
    exact fresh_append h.nextScope hnodup hbelow hchildren
  handlersApart := fun g g' d' e' hd' he' id hid hid' => by
    obtain ⟨d, hd, -, -, -, -, -, -, hnew, -⟩ := h.fibers g d' hd'
    obtain ⟨e, he, -, -, -, -, -, -, hnew', -⟩ := h.fibers g' e' he'
    rcases hnew id hid with hin | ⟨rfl, hfresh, -⟩ <;>
      rcases hnew' id hid' with hin' | ⟨rfl, hfresh', -⟩
    · exact ht.handlersApart g g' d e hd he id hin hin'
    · exact absurd (ht.handlers g d hd id hin) (by omega)
    · exact absurd (ht.handlers g' e he id hin') (by omega)
    · rfl
  middlewareApart := fun g g' d' e' hd' he' id hid hid' => by
    obtain ⟨d, hd, -, -, -, -, -, -, -, hnew, -⟩ := h.fibers g d' hd'
    obtain ⟨e, he, -, -, -, -, -, -, -, hnew', -⟩ := h.fibers g' e' he'
    rcases hnew id hid with hin | ⟨rfl, hfresh, -⟩ <;>
      rcases hnew' id hid' with hin' | ⟨rfl, hfresh', -⟩
    · exact ht.middlewareApart g g' d e hd he id hin hin'
    · exact absurd (ht.middleware g d hd id hin) (by omega)
    · exact absurd (ht.middleware g' e he id hin') (by omega)
    · rfl
  staged := fun g d' hd' hs => by
    obtain ⟨d, hd, horigin, hscope, hdescriptor, hstaged, -, hprovided, hhandlers, hmiddleware,
      hchildren⟩ := h.fibers g d' hd'
    obtain ⟨hbound, hfiled⟩ := ht.staged g d hd (hstaged ▸ hs)
    refine ⟨by rw [hscope, horigin, hbound], ?_⟩
    exact {
      services := fun s k e he ho => by
        rcases h.services s k e he with he | ⟨hof, d₀, d₀', hd₀, hd₀', hs₀, hk⟩
        · obtain ⟨hs, hk⟩ := hfiled.services s k e he ho
          exact ⟨hs.trans hscope.symm, hprovided k hk⟩
        · obtain rfl : g = f := ho.symm.trans hof
          rw [hd] at hd₀
          cases hd₀
          rw [hd'] at hd₀'
          cases hd₀'
          rw [← hbound, or_self] at hs₀
          exact ⟨hs₀.trans hscope.symm, hk⟩
      handlers := fun id hid => by
        rcases hhandlers id hid with hin | ⟨rfl, rfl, hlt⟩
        · obtain ⟨e, he, hes⟩ := hfiled.handlers id hin
          have hne : id ≠ rt.nextHandler := Nat.ne_of_lt (ht.handlers g d hd id hin)
          exact ⟨e, (h.handlers id hne).trans he, hes.trans hscope.symm⟩
        · obtain ⟨e, he, hes⟩ := h.handler hlt d d' hd hd' hid
          rw [← hbound, or_self] at hes
          exact ⟨e, he, hes.trans hscope.symm⟩
      middleware := fun id hid => by
        rcases hmiddleware id hid with hin | ⟨rfl, rfl, hlt⟩
        · obtain ⟨e, he, hes⟩ := hfiled.middleware id hin
          have hne : id ≠ rt.nextMiddleware := Nat.ne_of_lt (ht.middleware g d hd id hin)
          exact ⟨e, (h.middleware id hne).trans he, hes.trans hscope.symm⟩
        · obtain ⟨e, he, hes⟩ := h.intercept hlt d d' hd hd' hid
          rw [← hbound, or_self] at hes
          exact ⟨e, he, hes.trans hscope.symm⟩
      declared := fun s k hin => by
        rw [h.declared] at hin
        rw [hscope, hdescriptor]
        exact hfiled.declared s k hin
      listed := fun s r' hr' hin => by
        rw [hscope]
        rcases h.scopes s r' hr' with ⟨-, -, -, hempty⟩ | ⟨r, hr, hsame, -⟩
        · rw [hempty] at hin
          contradiction
        · exact hfiled.listed s r hr (hsame ▸ hin)
      children := (fresh_append h.nextScope hfiled.children (ht.children g d hd).2 hchildren).1 }

theorem setFiber_cases {g : FiberId} {d : FiberCell} (h : (rt.setFiber f c).fibers g = some d) :
    (g = f ∧ d = c) ∨ (g ≠ f ∧ rt.fibers g = some d) := by
  by_cases hg : g = f
  · subst hg
    exact .inl ⟨rfl, by simpa [setFiber, eq_comm] using h⟩
  · exact .inr ⟨hg, by simpa [setFiber, hg] using h⟩

theorem registerEntry_spec {scope : ScopeId} {entry : Registration}
    (h : rt.registerEntry f scope entry = some rt') :
    ∃ c, rt.fibers f = some c ∧ (scope = c.inner.scope ∨ scope = c.origin) ∧ c.accepts entry ∧
      rt' = rt.setFiber f { c with inner := FiberCell.registered entry c.inner } := by
  unfold registerEntry at h
  split at h <;> try contradiction
  rename_i c hc
  split_ifs at h with hadmitted
  obtain ⟨c', hc', rfl⟩ := Option.map_eq_some_iff.mp h
  simp only [FiberCell.step] at hc'
  split_ifs at hc' with haccepts
  cases hc'
  refine ⟨c, hc, ?_, haccepts, rfl⟩
  simpa [contextScope] using hadmitted.2

theorem provide_spec {scope : ScopeId} {key : ServiceSymbol}
    (h : rt.provide f scope key = some rt') :
    ∃ c rt₁, rt.fibers f = some c ∧ rt.services scope key = none ∧
      rt.registerEntry f scope (.provided key) = some rt₁ ∧
      rt' = rt₁.insertService scope key ⟨f, scope, gateOf c⟩ := by
  unfold provide at h
  split at h <;> try contradiction
  rename_i c hc
  split_ifs at h with hfree
  obtain ⟨rt₁, h₁, rfl⟩ := Option.map_eq_some_iff.mp h
  exact ⟨c, rt₁, hc, hfree, h₁, rfl⟩

theorem handle_spec {scope : ScopeId} {key : InvocationKey}
    (h : rt.handle f scope key = some rt') :
    ∃ c rt₁, rt.fibers f = some c ∧
      (∀ id < rt.nextHandler, ∀ e, rt.handlers id = some e → rt.visible e.gate ∨ e.gate = gateOf c →
        ¬ (e.scope = scope ∧ e.key = key)) ∧
      rt.registerEntry f scope (.invocationHandler rt.nextHandler) = some rt₁ ∧
      rt' = { rt₁ with
        handlers := Function.update rt₁.handlers rt.nextHandler (some ⟨scope, key, gateOf c⟩)
        nextHandler := rt.nextHandler + 1 } := by
  unfold handle at h
  split at h <;> try contradiction
  rename_i c hc
  split_ifs at h with hduplicate
  obtain ⟨rt₁, h₁, rfl⟩ := Option.map_eq_some_iff.mp h
  refine ⟨c, rt₁, hc, fun id hid e he hgate hsame => hduplicate ?_, h₁, rfl⟩
  refine List.any_eq_true.mpr ⟨id, List.mem_range.mpr hid, ?_⟩
  simp [he, hgate, hsame]

theorem intercept_spec {scope : ScopeId} {key : InvocationKey}
    (h : rt.intercept f scope key = some rt') :
    ∃ c rt₁, rt.fibers f = some c ∧
      rt.registerEntry f scope (.invocationMiddleware rt.nextMiddleware) = some rt₁ ∧
      rt' = { rt₁ with
        middleware := Function.update rt₁.middleware rt.nextMiddleware
          (some ⟨scope, key, gateOf c, rt.nextMiddleware⟩)
        nextMiddleware := rt.nextMiddleware + 1 } := by
  unfold intercept at h
  split at h <;> try contradiction
  rename_i c hc
  obtain ⟨rt₁, h₁, rfl⟩ := Option.map_eq_some_iff.mp h
  exact ⟨c, rt₁, hc, h₁, rfl⟩

theorem ownScope_spec {scope : ScopeId} (h : rt.ownScope f scope = some rt') :
    ∃ rt₁, rt.createScope scope false = some rt₁ ∧
      rt₁.registerEntry f scope (.childScope rt.nextScope) = some rt' :=
  Option.bind_eq_some_iff.mp h

theorem createScope_spec {parent : ScopeId} {hidden : Bool}
    (h : rt.createScope parent hidden = some rt') :
    (∃ r, rt.scopes parent = some r) ∧
      rt' = { rt with scopes := rt'.scopes, nextScope := rt.nextScope + 1 } ∧
      ∀ s, rt'.scopes s =
        (if s = rt.nextScope then some (.created (some parent) hidden) else rt.scopes s).map
          fun c => if s = parent ∧ c.inArena then { c with children := c.children ++ [rt.nextScope] }
            else c := by
  unfold createScope at h
  split_ifs at h with hopen
  obtain ⟨r, hr, -⟩ := (Option.any_eq_true _ _).mp hopen.2
  cases h
  refine ⟨⟨r, (scope_eq_some.mp hr).1⟩, ?_, fun s => ?_⟩
  · rw [(modifyScope_only _ parent _).eq]
    rfl
  · rw [modifyScope_scopes]
    congr 1
    simp [setScope, Function.update_apply]

theorem grows_createScope (ht : Topology rt) {parent : ScopeId} {hidden : Bool}
    (h : rt.createScope parent hidden = some rt') : Grows rt rt' f := by
  obtain ⟨⟨r, hr⟩, heq, hscopes⟩ := createScope_spec h
  have hparent : parent ≠ rt.nextScope := Nat.ne_of_lt (ht.scopes parent r hr).1
  have hlt : rt.nextScope < rt'.nextScope := by rw [heq]; exact Nat.lt_succ_self _
  have hfibers : rt'.fibers = rt.fibers := by rw [heq]
  have hservices : rt'.services = rt.services := by rw [heq]
  have hhandler : rt'.nextHandler = rt.nextHandler := by rw [heq]
  have hmiddleware : rt'.nextMiddleware = rt.nextMiddleware := by rw [heq]
  refine {
    nextFiber := by rw [heq]
    nextScope := hlt.le
    nextHandler := hhandler.ge
    nextMiddleware := hmiddleware.ge
    fibers := fun g d hd => ⟨d, hfibers ▸ hd, rfl, rfl, rfl, rfl, fun h => h, fun k hk => hk,
      fun id hid => .inl hid, fun id hid => .inl hid, .inl rfl⟩
    scopes := fun s r' hr' => ?_
    services := fun s k e he => .inl (hservices ▸ he)
    declared := by rw [heq]
    handlers := fun id _ => by rw [heq]
    handler := fun h => absurd h (by omega)
    middleware := fun id _ => by rw [heq]
    intercept := fun h => absurd h (by omega) }
  rw [hscopes] at hr'
  by_cases hs : s = rt.nextScope
  · subst hs
    obtain rfl : ScopeCell.created (some parent) hidden = r' := by
      simpa [Ne.symm hparent] using hr'
    exact .inl ⟨rfl, hlt, rfl, rfl⟩
  · rw [if_neg hs] at hr'
    obtain ⟨q, hq, rfl⟩ := Option.map_eq_some_iff.mp hr'
    refine .inr ⟨q, hq, ?_⟩
    split_ifs
    · exact ⟨rfl, .inr ⟨rfl, hlt⟩⟩
    · exact ⟨rfl, .inl rfl⟩

theorem holds_registered {entry : Registration} {k : ServiceSymbol} (h : c.Holds k) :
    { c with inner := FiberCell.registered entry c.inner }.Holds k := by
  cases entry with
  | provided key => exact h.imp_left (List.mem_append_left _)
  | effect | handler | invocationHandler | invocationMiddleware | childScope | task => exact h

theorem guarded_registered {entry : Registration} (h : c.Guarded) :
    { c with inner := FiberCell.registered entry c.inner }.Guarded := by
  cases entry <;> exact ⟨h.consistent, h.closed⟩

theorem grows_provide {scope : ScopeId} {key : ServiceSymbol}
    (h : rt.provide f scope key = some rt') : Grows rt rt' f := by
  unfold provide at h
  split at h <;> try contradiction
  split_ifs at h
  obtain ⟨rt₁, h₁, rfl⟩ := Option.map_eq_some_iff.mp h
  obtain ⟨c, hc, hscope, -, rfl⟩ := registerEntry_spec h₁
  have hself : ∀ c', ((rt.setFiber f c').fibers f) = some c' := fun c' => by simp [setFiber]
  exact {
    nextFiber := rfl
    nextScope := le_rfl
    nextHandler := le_rfl
    nextMiddleware := le_rfl
    fibers := fun g d' hd' => by
      rcases setFiber_cases hd' with ⟨rfl, rfl⟩ | ⟨-, hd⟩
      · exact ⟨c, hc, rfl, rfl, rfl, rfl, guarded_registered, fun k hk => holds_registered hk,
          fun id hid => .inl hid, fun id hid => .inl hid, .inl rfl⟩
      · exact ⟨d', hd, rfl, rfl, rfl, rfl, fun h => h, fun k hk => hk,
          fun id hid => .inl hid, fun id hid => .inl hid, .inl rfl⟩
    scopes := fun s r' hr' => .inr ⟨r', hr', rfl, .inl rfl⟩
    services := fun s k e he => by
      simp only [insertService] at he
      split_ifs at he with hkey
      · cases he
        obtain ⟨rfl, rfl⟩ := hkey
        exact .inr ⟨rfl, c, _, hc, hself _, hscope, .inl (List.mem_append_right _ (by simp))⟩
      · exact .inl he
    declared := rfl
    handlers := fun id _ => rfl
    handler := fun h => absurd h (lt_irrefl _)
    middleware := fun id _ => rfl
    intercept := fun h => absurd h (lt_irrefl _) }

theorem grows_handle {scope : ScopeId} {key : InvocationKey}
    (h : rt.handle f scope key = some rt') : Grows rt rt' f := by
  obtain ⟨c₀, rt₁, -, -, h₁, rfl⟩ := handle_spec h
  obtain ⟨c, hc, hscope, -, rfl⟩ := registerEntry_spec h₁
  exact {
    nextFiber := rfl
    nextScope := le_rfl
    nextHandler := Nat.le_succ _
    nextMiddleware := le_rfl
    fibers := fun g d' hd' => by
      rcases setFiber_cases hd' with ⟨rfl, rfl⟩ | ⟨-, hd⟩
      · refine ⟨c, hc, rfl, rfl, rfl, rfl, guarded_registered, fun k hk => holds_registered hk, fun id hid => ?_,
          fun id hid => .inl hid, .inl rfl⟩
        rcases List.mem_append.mp hid with hid | hid
        · exact .inl hid
        · rw [List.mem_singleton] at hid
          subst hid
          exact .inr ⟨rfl, rfl, Nat.lt_succ_self _⟩
      · exact ⟨d', hd, rfl, rfl, rfl, rfl, fun h => h, fun k hk => hk,
          fun id hid => .inl hid, fun id hid => .inl hid, .inl rfl⟩
    scopes := fun s r' hr' => .inr ⟨r', hr', rfl, .inl rfl⟩
    services := fun s k e he => .inl he
    declared := rfl
    handlers := fun id hne => by simp [Function.update_of_ne hne, setFiber]
    handler := fun _ d d' hd hd' hid => by
      rw [hc] at hd
      cases hd
      exact ⟨⟨scope, key, gateOf c₀⟩, by simp, hscope⟩
    middleware := fun id _ => rfl
    intercept := fun h => absurd h (lt_irrefl _) }

theorem grows_intercept {scope : ScopeId} {key : InvocationKey}
    (h : rt.intercept f scope key = some rt') : Grows rt rt' f := by
  unfold intercept at h
  split at h <;> try contradiction
  rename_i c₀ _
  obtain ⟨rt₁, h₁, rfl⟩ := Option.map_eq_some_iff.mp h
  obtain ⟨c, hc, hscope, -, rfl⟩ := registerEntry_spec h₁
  exact {
    nextFiber := rfl
    nextScope := le_rfl
    nextHandler := le_rfl
    nextMiddleware := Nat.le_succ _
    fibers := fun g d' hd' => by
      rcases setFiber_cases hd' with ⟨rfl, rfl⟩ | ⟨-, hd⟩
      · refine ⟨c, hc, rfl, rfl, rfl, rfl, guarded_registered, fun k hk => holds_registered hk,
          fun id hid => .inl hid,
          fun id hid => ?_, .inl rfl⟩
        rcases List.mem_append.mp hid with hid | hid
        · exact .inl hid
        · rw [List.mem_singleton] at hid
          subst hid
          exact .inr ⟨rfl, rfl, Nat.lt_succ_self _⟩
      · exact ⟨d', hd, rfl, rfl, rfl, rfl, fun h => h, fun k hk => hk,
          fun id hid => .inl hid, fun id hid => .inl hid, .inl rfl⟩
    scopes := fun s r' hr' => .inr ⟨r', hr', rfl, .inl rfl⟩
    services := fun s k e he => .inl he
    declared := rfl
    handlers := fun id _ => rfl
    handler := fun h => absurd h (lt_irrefl _)
    middleware := fun id hne => by simp [Function.update_of_ne hne, setFiber]
    intercept := fun _ d d' hd hd' hid => by
      rw [hc] at hd
      cases hd
      exact ⟨⟨scope, key, gateOf c₀, rt.nextMiddleware⟩, by simp [setFiber], hscope⟩ }

theorem grows_ownScope (ht : Topology rt) {scope : ScopeId}
    (h : rt.ownScope f scope = some rt') : Grows rt rt' f := by
  unfold ownScope at h
  obtain ⟨rt₁, h₁, h⟩ := Option.bind_eq_some_iff.mp h
  have hgrows : Grows rt rt₁ f := grows_createScope ht h₁
  obtain ⟨-, heq, -⟩ := createScope_spec h₁
  have hlt : rt.nextScope < rt₁.nextScope := by rw [heq]; exact Nat.lt_succ_self _
  have hfibers : rt₁.fibers = rt.fibers := by rw [heq]
  have hhandler : rt₁.nextHandler = rt.nextHandler := by rw [heq]
  have hmiddleware : rt₁.nextMiddleware = rt.nextMiddleware := by rw [heq]
  have hservices : rt₁.services = rt.services := by rw [heq]
  obtain ⟨c, hc, hscope, -, rfl⟩ := registerEntry_spec h
  rw [hfibers] at hc
  exact {
    nextFiber := hgrows.nextFiber
    nextScope := hgrows.nextScope
    nextHandler := hgrows.nextHandler
    nextMiddleware := hgrows.nextMiddleware
    fibers := fun g d' hd' => by
      rcases setFiber_cases hd' with ⟨rfl, rfl⟩ | ⟨-, hd⟩
      · exact ⟨c, hc, rfl, rfl, rfl, rfl, guarded_registered, fun k hk => holds_registered hk,
          fun id hid => .inl hid,
          fun id hid => .inl hid, .inr ⟨rfl, hlt⟩⟩
      · exact hgrows.fibers g d' hd
    scopes := hgrows.scopes
    services := fun s k e he => .inl (hservices ▸ he)
    declared := hgrows.declared
    handlers := hgrows.handlers
    handler := fun h => absurd (hhandler ▸ h) (lt_irrefl _)
    middleware := hgrows.middleware
    intercept := fun h => absurd (hmiddleware ▸ h) (lt_irrefl _) }

/-! ## Installs -/

theorem insertFiber_spec {scope : ScopeId} {plugin : Option PluginId}
    {descriptor : PluginDescriptor} {staged : Bool}
    (h : rt.insertFiber scope plugin descriptor staged = some rt') :
    ∃ p, rt' = { rt with
        fibers := Function.update rt.fibers rt.nextFiber (some (.created rt.nextFiber p scope
          descriptor (rt.nextGeneration p) staged))
        nextFiber := rt.nextFiber + 1
        nextPlugin := rt'.nextPlugin
        nextGeneration := rt'.nextGeneration
        scopes := rt'.scopes } ∧
      ∀ s, rt'.scopes s = (rt.scopes s).map fun c =>
        if s = scope ∧ c.inArena then { c with fibers := c.fibers ++ [rt.nextFiber] } else c := by
  unfold insertFiber at h
  split_ifs at h
  cases h
  refine ⟨plugin.getD rt.nextPlugin, ?_, fun s => ?_⟩
  · rw [(modifyScope_only _ scope _).eq]
    rfl
  · exact modifyScope_scopes ..

theorem topology_insertFiber (ht : Topology rt) {scope : ScopeId} {plugin : Option PluginId}
    {descriptor : PluginDescriptor} {staged : Bool}
    (h : rt.insertFiber scope plugin descriptor staged = some rt') : Topology rt' := by
  obtain ⟨p, heq, hscopes⟩ := insertFiber_spec h
  have hfibers : rt'.fibers = Function.update rt.fibers rt.nextFiber (some (.created rt.nextFiber p
      scope descriptor (rt.nextGeneration p) staged)) := by rw [heq]
  have hnext : rt'.nextFiber = rt.nextFiber + 1 := by rw [heq]
  have hnextScope : rt'.nextScope = rt.nextScope := by rw [heq]
  have hnextHandler : rt'.nextHandler = rt.nextHandler := by rw [heq]
  have hnextMiddleware : rt'.nextMiddleware = rt.nextMiddleware := by rw [heq]
  have hservices : rt'.services = rt.services := by rw [heq]
  have hhandlers : rt'.handlers = rt.handlers := by rw [heq]
  have hmiddleware : rt'.middleware = rt.middleware := by rw [heq]
  have hdeclared : rt'.declared = rt.declared := by rw [heq]
  -- the Fiber is the new one, with empty ledgers, or an old one
  have hcases : ∀ g d, rt'.fibers g = some d →
      (g = rt.nextFiber ∧ d = .created rt.nextFiber p scope descriptor (rt.nextGeneration p) staged) ∨
        rt.fibers g = some d ∧ g < rt.nextFiber := by
    intro g d hd
    rw [hfibers] at hd
    by_cases hg : g = rt.nextFiber
    · subst hg
      rw [Function.update_self] at hd
      exact .inl ⟨rfl, (Option.some.inj hd).symm⟩
    · rw [Function.update_of_ne hg] at hd
      exact .inr ⟨hd, ht.fibers g d hd⟩
  have hscopeCases : ∀ s r', rt'.scopes s = some r' → ∃ r, rt.scopes s = some r ∧
      r'.children = r.children ∧ ∀ g ∈ r'.fibers, g ∈ r.fibers ∨ g = rt.nextFiber ∧ s = scope := by
    intro s r' hr'
    rw [hscopes] at hr'
    obtain ⟨r, hr, rfl⟩ := Option.map_eq_some_iff.mp hr'
    refine ⟨r, hr, ?_, fun g hg => ?_⟩
    · split_ifs <;> rfl
    · split_ifs at hg with hs
      · rcases List.mem_append.mp hg with hg | hg
        · exact .inl hg
        · exact .inr ⟨List.mem_singleton.mp hg, hs.1⟩
      · exact .inl hg
  exact {
    fibers := fun g d hd => by
      rw [hnext]
      rcases hcases g d hd with ⟨rfl, -⟩ | ⟨-, hlt⟩
      · exact Nat.lt_succ_self _
      · exact Nat.lt_succ_of_lt hlt
    guarded := fun g d hd => by
      rcases hcases g d hd with ⟨-, rfl⟩ | ⟨hd, -⟩
      · exact guarded_created ..
      · exact ht.guarded g d hd
    scopes := fun s r' hr' => by
      obtain ⟨r, hr, hchildren, hfibers⟩ := hscopeCases s r' hr'
      obtain ⟨hlt, hnodup, hbelow, hmembers⟩ := ht.scopes s r hr
      rw [hnextScope, hnext, hchildren]
      refine ⟨hlt, hnodup, hbelow, fun g hg => ?_⟩
      rcases hfibers g hg with hin | ⟨rfl, -⟩
      · exact Nat.lt_succ_of_lt (hmembers g hin)
      · exact Nat.lt_succ_self _
    services := fun s k e he => by
      rw [hnext]
      exact Nat.lt_succ_of_lt (ht.services s k e (hservices ▸ he))
    declared := fun s k g hg => by
      rw [hnext]
      exact Nat.lt_succ_of_lt (ht.declared s k g (hdeclared ▸ hg))
    handlers := fun g d hd => by
      rw [hnextHandler]
      rcases hcases g d hd with ⟨-, rfl⟩ | ⟨hd, -⟩
      · simp [FiberCell.created, FiberMutable.created]
      · exact ht.handlers g d hd
    middleware := fun g d hd => by
      rw [hnextMiddleware]
      rcases hcases g d hd with ⟨-, rfl⟩ | ⟨hd, -⟩
      · simp [FiberCell.created, FiberMutable.created]
      · exact ht.middleware g d hd
    children := fun g d hd => by
      rw [hnextScope]
      rcases hcases g d hd with ⟨-, rfl⟩ | ⟨hd, -⟩
      · simp [FiberCell.created, FiberMutable.created]
      · exact ht.children g d hd
    handlersApart := fun g g' d e hd he id hid hid' => by
      rcases hcases g d hd with ⟨-, rfl⟩ | ⟨hd, -⟩
      · simp [FiberCell.created, FiberMutable.created] at hid
      · rcases hcases g' e he with ⟨-, rfl⟩ | ⟨he, -⟩
        · simp [FiberCell.created, FiberMutable.created] at hid'
        · exact ht.handlersApart g g' d e hd he id hid hid'
    middlewareApart := fun g g' d e hd he id hid hid' => by
      rcases hcases g d hd with ⟨-, rfl⟩ | ⟨hd, -⟩
      · simp [FiberCell.created, FiberMutable.created] at hid
      · rcases hcases g' e he with ⟨-, rfl⟩ | ⟨he, -⟩
        · simp [FiberCell.created, FiberMutable.created] at hid'
        · exact ht.middlewareApart g g' d e hd he id hid hid'
    staged := fun g d hd hs => by
      rcases hcases g d hd with ⟨rfl, rfl⟩ | ⟨hd, hlt⟩
      · -- nothing but the membership names the new Fiber
        refine ⟨rfl, {
          services := fun s k e he ho => by
            have := ht.services s k e (hservices ▸ he)
            exact absurd ho (Nat.ne_of_lt this)
          handlers := by simp [FiberCell.created, FiberMutable.created]
          middleware := by simp [FiberCell.created, FiberMutable.created]
          declared := fun s k hg => absurd (ht.declared s k _ (hdeclared ▸ hg)) (lt_irrefl _)
          listed := fun s r' hr' hg => by
            obtain ⟨r, hr, -, hfibers⟩ := hscopeCases s r' hr'
            rcases hfibers _ hg with hin | ⟨-, hs⟩
            · exact absurd ((ht.scopes s r hr).2.2.2 _ hin) (lt_irrefl _)
            · exact hs
          children := by simp [FiberCell.created, FiberMutable.created] }⟩
      · obtain ⟨hbound, hfiled⟩ := ht.staged g d hd hs
        refine ⟨hbound, {
          services := hservices ▸ hfiled.services
          handlers := hhandlers ▸ hfiled.handlers
          middleware := hmiddleware ▸ hfiled.middleware
          declared := hdeclared ▸ hfiled.declared
          listed := fun s r' hr' hg => by
            obtain ⟨r, hr, -, hfibers⟩ := hscopeCases s r' hr'
            rcases hfibers _ hg with hin | ⟨rfl, -⟩
            · exact hfiled.listed s r hr hin
            · exact absurd hlt (lt_irrefl _)
          children := hfiled.children }⟩ }

/-! ## The cutover -/

variable {p : PreparedScopeRevision} {oldCell : FiberCell}

theorem guarded_superseded (h : c.Guarded) :
    { c with inner := { c.inner with capabilities := c.inner.capabilities.close } }.Guarded :=
  ⟨h.consistent, fun _ => rfl⟩

theorem cutOver_fibers {g : FiberId} {d : FiberCell} (hold : rt.fibers p.old = some oldCell)
    (hd : (rt.cutOver p oldCell c).fibers g = some d) :
    (g = p.staged ∧ d = { c with inner := c.inner.cutover p.target }) ∨
      (g ≠ p.staged ∧ ∃ e, rt.fibers g = some e ∧ e.Shrinks d ∧ ∀ k, e.Holds k → d.Holds k) := by
  by_cases hg : g = p.staged
  · subst hg
    refine .inl ⟨rfl, ?_⟩
    simpa [cutOver, eq_comm] using hd
  · refine .inr ⟨hg, ?_⟩
    by_cases hgold : g = p.old
    · subst hgold
      refine ⟨oldCell, hold, ?_⟩
      simp only [cutOver, Function.update_of_ne hg, Function.update_self, Option.some.injEq] at hd
      subst hd
      exact ⟨⟨rfl, rfl, rfl, id, .refl _, .refl _, .refl _, guarded_superseded⟩, fun k hk => hk⟩
    · refine ⟨d, ?_, .refl d, fun k hk => hk⟩
      simpa [cutOver, hg, hgold] using hd

theorem topology_cutOver (ht : Topology rt) (hold : rt.fibers p.old = some oldCell)
    (hc : rt.fibers p.staged = some c) (hchildren : p.children = c.inner.childScopes)
    (hrel : Relocatable rt p.staging p.target p.staged p.children)
    (hentries : ∀ k ∈ c.inner.provided, ∃ e, rt.services p.staging k = some e ∧
      e.owner = p.staged) : Topology (rt.cutOver p oldCell c) := by
  have hcell : ∀ g d, (rt.cutOver p oldCell c).fibers g = some d → ∃ e, rt.fibers g = some e ∧
      d.inner.invocationHandlers.Sublist e.inner.invocationHandlers ∧
      d.inner.invocationMiddleware.Sublist e.inner.invocationMiddleware ∧
      d.inner.childScopes.Sublist e.inner.childScopes := by
    intro g d hd
    rcases cutOver_fibers hold hd with ⟨rfl, rfl⟩ | ⟨-, e, he, hshrinks, -⟩
    · exact ⟨c, hc, .refl _, .refl _, .refl _⟩
    · exact ⟨e, he, hshrinks.handlers, hshrinks.middleware, hshrinks.children⟩
  have hstagedLt := ht.fibers p.staged c hc
  obtain ⟨hchildNodup, hchildBelow⟩ := ht.children p.staged c hc
  have hmember : ∀ s r, rt.scopes s = some r → ∀ g,
      g ∈ (relocated p.staging p.target p.staged p.children s r).fibers →
        g ∈ r.fibers ∨ g = p.staged := by
    intro s r hr g hg
    by_cases hin : r.inArena
    · simp only [relocated, hin, if_true] at hg
      split_ifs at hg <;>
        try simp only [List.mem_append, List.mem_filter, List.mem_singleton] at hg
      all_goals tauto
    · rw [relocated, if_neg hin] at hg
      exact .inl hg
  exact {
    fibers := fun g d hd => by
      obtain ⟨e, he, -⟩ := hcell g d hd
      exact ht.fibers g e he
    guarded := fun g d hd => by
      rcases cutOver_fibers hold hd with ⟨rfl, rfl⟩ | ⟨-, e, he, hshrinks, -⟩
      · exact ⟨(ht.guarded _ c hc).consistent, (ht.guarded _ c hc).closed⟩
      · exact hshrinks.guarded (ht.guarded g e he)
    scopes := fun s r' hr' => by
      obtain ⟨r, hr, rfl⟩ := Option.map_eq_some_iff.mp hr'
      obtain ⟨hlt, hnodup, hbelow, hmembers⟩ := ht.scopes s r hr
      have hlists : (relocated p.staging p.target p.staged p.children s r).children.Nodup ∧
          ∀ x ∈ (relocated p.staging p.target p.staged p.children s r).children,
            x < rt.nextScope := by
        by_cases hin : r.inArena
        swap
        · rw [relocated, if_neg hin]
          exact ⟨hnodup, hbelow⟩
        have hkept : ∀ l : List ScopeId, (r.children.filter fun x => x ∉ l).Nodup ∧
            ∀ x ∈ r.children.filter fun x => x ∉ l, x < rt.nextScope := fun l =>
          ⟨hnodup.filter _, fun x hx => hbelow x (List.mem_filter.mp hx).1⟩
        by_cases hd : s = p.target
        · subst hd
          obtain ⟨q, hq, -, -, hout⟩ := hrel.joins
          obtain rfl : r = q := by simpa [hr] using (scope_eq_some.mp hq).1
          simp only [relocated, hin, if_true, hrel.ne.symm, if_false]
          refine ⟨List.nodup_append.mpr ⟨hnodup, hchildren ▸ hchildNodup, fun x hx y hy heq => ?_⟩,
            fun x hx => ?_⟩
          · exact hout y hy (heq ▸ hx)
          · rcases List.mem_append.mp hx with hx | hx
            · exact hbelow x hx
            · exact hchildBelow x (hchildren ▸ hx)
        · by_cases hs : s = p.staging
          · subst hs
            simp only [relocated, hin, if_true, hd, if_false]
            exact hkept p.children
          · simp only [relocated, hin, if_true, hd, hs, if_false]
            exact ⟨hnodup, hbelow⟩
      refine ⟨hlt, hlists.1, hlists.2, fun g hg => ?_⟩
      · rcases hmember s r hr g hg with hin | rfl
        · exact hmembers g hin
        · exact hstagedLt
    services := fun s k e he => by
      simp only [cutOver, movedServices] at he
      split_ifs at he with hk
      · obtain ⟨e', he', rfl⟩ := Option.map_eq_some_iff.mp he
        exact ht.services p.staging k e' he'
      · exact ht.services s k e he
    declared := fun s k g hg => by
      simp only [cutOver, movedProviders] at hg
      split_ifs at hg
      · exact ht.declared s k g (List.mem_filter.mp hg).1
      · rcases List.mem_append.mp hg with hg | hg
        · exact ht.declared s k g hg
        · rw [List.mem_singleton.mp hg]
          exact hstagedLt
      · exact ht.declared s k g hg
      · exact ht.declared s k g hg
    handlers := fun g d hd id hid => by
      obtain ⟨e, he, hsub, -⟩ := hcell g d hd
      exact ht.handlers g e he id (hsub.subset hid)
    middleware := fun g d hd id hid => by
      obtain ⟨e, he, -, hsub, -⟩ := hcell g d hd
      exact ht.middleware g e he id (hsub.subset hid)
    children := fun g d hd => by
      obtain ⟨e, he, -, -, hsub⟩ := hcell g d hd
      obtain ⟨hnodup, hbelow⟩ := ht.children g e he
      exact ⟨hnodup.sublist hsub, fun s hs => hbelow s (hsub.subset hs)⟩
    handlersApart := fun g g' d d' hd hd' id hid hid' => by
      obtain ⟨e, he, hsub, -⟩ := hcell g d hd
      obtain ⟨e', he', hsub', -⟩ := hcell g' d' hd'
      exact ht.handlersApart g g' e e' he he' id (hsub.subset hid) (hsub'.subset hid')
    middlewareApart := fun g g' d d' hd hd' id hid hid' => by
      obtain ⟨e, he, -, hsub, -⟩ := hcell g d hd
      obtain ⟨e', he', -, hsub', -⟩ := hcell g' d' hd'
      exact ht.middlewareApart g g' e e' he he' id (hsub.subset hid) (hsub'.subset hid')
    staged := fun g d hd hs => by
      rcases cutOver_fibers hold hd with ⟨-, rfl⟩ | ⟨hne, e, he, hshrinks, hprovided⟩
      · simp [FiberMutable.cutover] at hs
      obtain ⟨hbound, hfiled⟩ := ht.staged g e he (hshrinks.staged hs)
      refine ⟨by rw [hshrinks.scope, hshrinks.origin, hbound], ?_⟩
      exact {
        services := fun s k entry hentry ho => by
          rw [hshrinks.scope]
          simp only [cutOver, movedServices] at hentry
          split_ifs at hentry with hk
          · -- a moved entry is the staged Fiber's
            obtain ⟨entry', hentry', rfl⟩ := Option.map_eq_some_iff.mp hentry
            obtain ⟨q, hq, howner⟩ := hentries k hk.1
            rw [hentry'] at hq
            cases hq
            exact absurd (ho.symm.trans howner) hne
          · exact (hfiled.services s k entry hentry ho).imp_right (hprovided k)
        handlers := fun id hid => by
          have hin := hshrinks.handlers.subset hid
          obtain ⟨entry, hentry, hscope⟩ := hfiled.handlers id hin
          have hout : id ∉ c.inner.invocationHandlers := fun hid' =>
            hne (ht.handlersApart g p.staged e c he hc id hin hid')
          exact ⟨entry, by simp [cutOver, hout, hentry], hscope.trans hshrinks.scope.symm⟩
        middleware := fun id hid => by
          have hin := hshrinks.middleware.subset hid
          obtain ⟨entry, hentry, hscope⟩ := hfiled.middleware id hin
          have hout : id ∉ c.inner.invocationMiddleware := fun hid' =>
            hne (ht.middlewareApart g p.staged e c he hc id hin hid')
          exact ⟨entry, by simp [cutOver, hout, hentry], hscope.trans hshrinks.scope.symm⟩
        declared := fun s k hg => by
          rw [hshrinks.scope, hshrinks.descriptor]
          simp only [cutOver, movedProviders] at hg
          split_ifs at hg
          · exact hfiled.declared s k (List.mem_filter.mp hg).1
          · rcases List.mem_append.mp hg with hg | hg
            · exact hfiled.declared s k hg
            · exact absurd (List.mem_singleton.mp hg) hne
          · exact hfiled.declared s k hg
          · exact hfiled.declared s k hg
        listed := fun s r' hr' hg => by
          obtain ⟨r, hr, rfl⟩ := Option.map_eq_some_iff.mp hr'
          rw [hshrinks.scope]
          rcases hmember s r hr g hg with hin | heq
          · exact hfiled.listed s r hr hin
          · exact absurd heq hne
        children := hfiled.children.sublist hshrinks.children } }

theorem SameTopology.tame (h : SameTopology rt rt') : Tame rt rt' := by
  have hfibers : rt'.fibers = rt.fibers := by rw [h.rest]
  have hservices : rt'.services = rt.services := by rw [h.rest]
  have hhandlers : rt'.handlers = rt.handlers := by rw [h.rest]
  have hmiddleware : rt'.middleware = rt.middleware := by rw [h.rest]
  exact {
    nextFiber := by rw [h.rest]
    nextScope := by rw [h.rest]
    nextHandler := by rw [h.rest]
    nextMiddleware := by rw [h.rest]
    fibers := fun f c hc => ⟨c, hfibers ▸ hc, .refl c⟩
    scopes := fun s r' hr' => by
      have hsame := h.scopes s
      rw [hr'] at hsame
      cases hr : rt.scopes s with
      | none =>
        rw [hr] at hsame
        cases hsame
      | some r =>
        rw [hr] at hsame
        cases hsame with
        | some hsame => exact ⟨r, rfl, hsame.children.subperm, hsame.fibers.subperm⟩
    services := fun s k e he => hservices ▸ he
    provided := fun f c c' hc hc' _ k hk e he ho => by
      rw [hfibers, hc] at hc'
      cases hc'
      exact hk
    declared := fun s k f hf => .inl ((h.declared s k).mem_iff.mp hf)
    handlers := fun id => .inl (by rw [hhandlers])
    middleware := fun id => .inl (by rw [hmiddleware]) }

theorem live_of_staged {active : GenerationId} (h : c.inner.capabilities.isStaged active = true) :
    c.retired = false := by
  simp only [CapabilityGate.isStaged, Bool.and_eq_true, Bool.not_eq_true'] at h
  exact h.1

/-- The Fiber that a cutover moves has filed everything under the Scope it is listed in. -/
theorem staged_filed (ht : Topology rt) {old staged : FiberId} {staging : ScopeId}
    {oldCell stagedCell : FiberCell} (hold : rt.fiber old = some oldCell)
    (hstaged : rt.fiber staged = some stagedCell) (hreloading : oldCell.inner.state = .Reloading)
    (hactive : stagedCell.inner.state = .Active)
    (hlisted : ∃ q, rt.scope staging = some q ∧ staged ∈ q.fibers)
    (hflag : stagedCell.inner.staged = true) :
    staged ≠ old ∧ Filed rt staged stagedCell ∧ staging = stagedCell.inner.scope := by
  obtain ⟨-, hfiled⟩ := ht.staged staged stagedCell (fiber_eq_some.mp hstaged).1 hflag
  refine ⟨fun heq => ?_, hfiled, ?_⟩
  · subst heq
    rw [hold] at hstaged
    cases hstaged
    rw [hreloading] at hactive
    contradiction
  · obtain ⟨q, hq, hin⟩ := hlisted
    exact hfiled.listed staging q (scope_eq_some.mp hq).1 hin

/-- What a committed cutover from `old` to `staged` has found. -/
structure CutFrom (rt : Runtime) (old staged : FiberId) (staging target : ScopeId)
    (oldCell c : FiberCell) : Prop where
  oldFiber : rt.fibers old = some oldCell
  lifecycle : oldCell.lifecycle = some (.reload .reloading)
  stagedFiber : rt.fibers staged = some c
  flag : c.inner.staged = true
  active : c.inner.state = .Active
  gate : c.inner.capabilities.isStaged (rt.selectors c.plugin) = true
  ne : staged ≠ old
  scope : staging = c.inner.scope
  providers : Movable rt staging target c.inner.descriptor.provisions staged
  scopes : Relocatable rt staging target staged c.inner.childScopes
  services : ∀ k ∈ c.inner.provided, ∃ e, rt.services staging k = some e ∧ e.owner = staged
  plugin : c.plugin = oldCell.plugin
  valid : rt.validateRevision oldCell.inner.invocationHandlers c.inner.invocationHandlers target =
    .ok ()
  arena : c.inArena = true

/-- The old Fiber after a committed cutover. -/
def superseded (oldCell : FiberCell) : FiberCell := { oldCell with
  inner := { oldCell.inner with capabilities := oldCell.inner.capabilities.close }
  lifecycle := some (.reload .ended) }

/-- What a committed cutover has found of the Fiber that it replaces. -/
structure Supersedes (rt : Runtime) (old : FiberId) (target : ScopeId) (oldCell c : FiberCell) :
    Prop where
  services : ∀ k ∈ c.inner.provided, ∀ e, rt.services target k = some e → e.owner = old
  selector : rt.selectors c.plugin = oldCell.inner.capabilities.generation

/-- A cutover that fails, at whichever exit, has changed the order of lists at most. -/
theorem commitRevisionIf_error (ht : Topology rt) {valid : FiberCell → FiberCell → Outcome}
    {old staged : FiberId} {staging target : ScopeId} {c : FiberCell} {e : CordisError}
    (hc : rt.fibers staged = some c) (hflag : c.inner.staged = true)
    (h : rt.commitRevisionIf valid old staged staging target = (rt', .error e)) : SameTopology rt rt' := by
  rcases commitRevisionIf_spec h with ⟨rfl, -⟩ | ⟨oldCell, stagedCell, hold, hstaged, hreloading, hactive, -,
    hlisted, hprepared⟩
  · exact .refl _
  obtain rfl : c = stagedCell := by simpa [hc] using (fiber_eq_some.mp hstaged).1
  obtain ⟨hne, hfiled, hscope⟩ := staged_filed ht hold hstaged hreloading hactive hlisted hflag
  exact commitPrepared_error hfiled hscope rfl hne (fun s r hr => (ht.scopes s r hr).2.1) hprepared

theorem commitReload_supersedes (ht : Topology rt) {old staged : FiberId} {staging target : ScopeId}
    (h : rt.commitReload old staged staging target = some rt') :
    SameTopology rt rt' ∨ ∃ oldCell c, CutFrom rt old staged staging target oldCell c ∧
      Supersedes rt old target oldCell c ∧
      rt' = (rt.cutOver ⟨staging, target, staged, old, c.inner.childScopes⟩ oldCell c).setFiber old
        (superseded oldCell) := by
  unfold commitReload reloadWith at h
  split at h <;> try contradiction
  rename_i hlifecycle
  split_ifs at h with hflag
  obtain ⟨c, hc, hflag⟩ := (Option.any_eq_true _ _).mp hflag
  split at h
  · rename_i rt₁ answer hcommit
    rcases commitRevisionIf_spec hcommit with ⟨-, e, he⟩ | ⟨oldCell, stagedCell, hold, hstaged,
      hreloading, hactive, hgate, hlisted, hprepared⟩
    · contradiction
    obtain rfl : c = stagedCell := by simpa [hc] using (fiber_eq_some.mp hstaged).1
    obtain ⟨hne, -, hscope⟩ := staged_filed ht hold hstaged hreloading hactive hlisted hflag
    have hnamed := commitPrepared_named hprepared
    obtain ⟨hmovable, hrel, hentries, hplugin, rfl⟩ := commitPrepared_ok hprepared
    have hvalid := commitStagedRevision_valid hold hstaged hcommit
    obtain ⟨d, hd, rfl⟩ := Option.map_eq_some_iff.mp h
    obtain rfl : d = { oldCell with
        inner := { oldCell.inner with capabilities := oldCell.inner.capabilities.close } } := by
      simpa [cutOver, Function.update_of_ne (Ne.symm hne), eq_comm] using hd
    have holdCell := (fiber_eq_some.mp hold).1
    rw [holdCell] at hlifecycle
    exact .inr ⟨oldCell, c, ⟨holdCell, hlifecycle, hc, hflag, hactive, hgate, hne, hscope, hmovable,
      hrel, hentries, hplugin, hvalid, (fiber_eq_some.mp hstaged).2⟩,
      ⟨commitStagedRevision_free hold hstaged hcommit, hplugin ▸ hnamed⟩, rfl⟩
  · rename_i rt₁ e hcommit
    cases h
    exact .inl (commitRevisionIf_error ht hc hflag hcommit)

theorem commitReload_cases (ht : Topology rt) {old staged : FiberId} {staging target : ScopeId}
    (h : rt.commitReload old staged staging target = some rt') :
    SameTopology rt rt' ∨ ∃ oldCell c, CutFrom rt old staged staging target oldCell c ∧
      rt' = (rt.cutOver ⟨staging, target, staged, old, c.inner.childScopes⟩ oldCell c).setFiber old
        (superseded oldCell) := by
  rcases commitReload_supersedes ht h with hsame | ⟨oldCell, c, hcut, -, hnow⟩
  · exact .inl hsame
  · exact .inr ⟨oldCell, c, hcut, hnow⟩

theorem topology_commitReload (ht : Topology rt) {old staged : FiberId} {staging target : ScopeId}
    (h : rt.commitReload old staged staging target = some rt') : Topology rt' := by
  rcases commitReload_cases ht h with hsame | ⟨oldCell, c, hcut, rfl⟩
  · exact topology_tame ht hsame.tame
  · have htopology : Topology (rt.cutOver ⟨staging, target, staged, old, c.inner.childScopes⟩
        oldCell c) :=
      topology_cutOver ht hcut.oldFiber hcut.stagedFiber rfl hcut.scopes hcut.services
    have hold : (rt.cutOver ⟨staging, target, staged, old, c.inner.childScopes⟩ oldCell c).fibers
        old = some { oldCell with
          inner := { oldCell.inner with capabilities := oldCell.inner.capabilities.close } } := by
      simp [cutOver, Function.update_of_ne (Ne.symm hcut.ne)]
    refine topology_tame htopology (tame_setFiber hold ?_ (fun s k e he => he)
      fun _ k hk e he ho => hk)
    exact ⟨rfl, rfl, rfl, id, .refl _, .refl _, .refl _, fun hg => ⟨hg.consistent, hg.closed⟩⟩

/-! ## Over every run -/

theorem topology_step {l : RuntimeLabel} (ht : Topology rt) (h : rt.step l = some rt') :
    Topology rt' := by
  cases l <;> simp only [step] at h
  case fiber => exact topology_tame ht (tame_fiberStep h)
  case scope s l =>
    split at h <;> try contradiction
    rename_i c hc
    obtain ⟨pc, -, h⟩ := Option.bind_eq_some_iff.mp h
    exact topology_tame ht (tame_stepScope hc h)
  case disposeScope s p =>
    cases h
    exact topology_tame ht (tame_requestScopeDisposal rt s p)
  case createScope => exact topology_grows ht (grows_createScope (f := 0) ht h)
  case install => exact topology_insertFiber ht h
  case provide => exact topology_grows ht (grows_provide h)
  case handle => exact topology_grows ht (grows_handle h)
  case intercept => exact topology_grows ht (grows_intercept h)
  case ownScope => exact topology_grows ht (grows_ownScope ht h)
  case commitReload => exact topology_commitReload ht h
  case sweepFiber => exact topology_tame ht (tame_sweepFiber h)
  case sweepScope => exact topology_tame ht (tame_sweepScope h)
  case beginShutdown =>
    cases h
    exact ⟨ht.fibers, ht.guarded, ht.scopes, ht.services, ht.declared, ht.handlers, ht.middleware, ht.children,
      ht.handlersApart, ht.middlewareApart, fun f c hc hs => by
        obtain ⟨hbound, hfiled⟩ := ht.staged f c hc hs
        exact ⟨hbound, ⟨hfiled.services, hfiled.handlers, hfiled.middleware, hfiled.declared,
          hfiled.listed, hfiled.children⟩⟩⟩

theorem topology_reach (h : Reach step anyStep .new rt) : Topology rt :=
  h.invariant topology_new fun _ _ _ ht _ hs => topology_step ht hs

/-- **Reload cutover is all or nothing.** Whatever Fibers and Scopes it is called with, in every
state a run can reach: on success everything the staged Fiber has filed is in the target Scope and
the selector names its generation; on failure, at whichever exit, the Runtime is what it was up to
the order of the membership and declaration lists. -/
theorem cutover_all_or_nothing (h : Reach step anyStep .new rt) (old staged : FiberId)
    (staging target : ScopeId) {c : FiberCell} (hc : rt.fibers staged = some c)
    (hflag : c.inner.staged = true) :
    match rt.commitStagedRevision old staged staging target with
    | (rt', .ok _) => CutOver rt rt' staged c staging target
    | (rt', .error _) => SameTopology rt rt' := by
  have ht := topology_reach h
  split
  · rename_i rt' answer hcommit
    rcases commitRevisionIf_spec hcommit with ⟨-, e, he⟩ | ⟨oldCell, stagedCell, hold, hstaged,
      hreloading, hactive, hgate, hlisted, hprepared⟩
    · contradiction
    obtain rfl : c = stagedCell := by simpa [hc] using (fiber_eq_some.mp hstaged).1
    obtain ⟨-, hfiled, -⟩ := staged_filed ht hold hstaged hreloading hactive hlisted hflag
    exact cutOver_of_ok hfiled (fun k => (ht.guarded staged c hc).provided (live_of_staged hgate)) rfl hprepared
  · rename_i rt' e hcommit
    exact commitRevisionIf_error ht hc hflag hcommit

/-- The given sections of Fiber `f`. -/
def sections (f : FiberId) (labels : List FiberLabel) : List RuntimeLabel :=
  labels.map (.fiber f)

/-- Activation call `n` of Fiber `f`, whose `plugin.start` makes `calls`, to its end. -/
def activation (f : FiberId) (n : Nat) (staged : Bool) (calls : List RuntimeLabel) :
    List RuntimeLabel :=
  [RuntimeLabel.fiber f (.activationLock n), .fiber f (.activationBegin n true (.ok 0)),
    .fiber f (.activationPoll n)] ++ calls ++
  [RuntimeLabel.fiber f (.activationReturn n (.ok ())), .fiber f (.activationSeal n true),
    .fiber f (.activationValidate n), .fiber f (.activationReadStaged n)] ++
  (if staged then [RuntimeLabel.fiber f (.activationDefer n)]
    else [.fiber f (.activationCheck n (.ok ())), .fiber f (.activationCommit n (.ok ()) .NONE)]) ++
  [RuntimeLabel.fiber f (.activationRelease n)]

/-- The install of Fiber `f`, whose dependencies are met, to its end. -/
def installed (f : FiberId) (scope : ScopeId) (plugin : Option PluginId)
    (descriptor : PluginDescriptor) (staged : Bool) (calls : List RuntimeLabel) :
    List RuntimeLabel :=
  [RuntimeLabel.install scope plugin descriptor staged] ++
  List.replicate (descriptor.dependencies.length + descriptor.provisions.length) (.fiber f .installIndex) ++
  [RuntimeLabel.fiber f (.installValidate (.ok ())), .fiber f (.installCheck true)] ++
  activation f 0 staged calls ++ [RuntimeLabel.fiber f .installActivated]

/-- The reload of Fiber `old`, up to the state `Reloading`. -/
def reloading (old : FiberId) : List RuntimeLabel :=
  [.fiber old .reloadLock, .fiber old .reloadCheck, .fiber old .reloadTransition]

/-- A reload that moves a service, a handler and a child Scope. -/
theorem cutover_all_or_nothing_reload :
    ∃ rt c, Reach step anyStep .new rt ∧ rt.fibers 1 = some c ∧ c.inner.provided = [7] ∧
      c.inner.childScopes = [2] ∧ CutOver rt (rt.commitStagedRevision 0 1 1 0).1 1 c 1 0 := by
  have hrun : ((run step .new (installed 0 0 none ⟨[], [7], .Restart⟩ false [.provide 0 0 7] ++
      reloading 0 ++ [.createScope 0 true] ++ installed 1 1 (some 0) ⟨[], [7], .Restart⟩ true
        [.provide 1 1 7, .handle 1 1 0, .ownScope 1 1])).any fun rt =>
      (rt.fibers 1).any (fun c => c.inner.staged && c.inner.provided == [7] &&
        c.inner.childScopes == [2]) && (rt.commitStagedRevision 0 1 1 0).2.isOk) = true := by
    decide
  obtain ⟨rt, hrt, hrun⟩ := (Option.any_eq_true _ _).mp hrun
  obtain ⟨hcell, hok⟩ := Bool.and_eq_true_iff.mp hrun
  obtain ⟨c, hc, hcell⟩ := (Option.any_eq_true _ _).mp hcell
  simp only [Bool.and_eq_true, beq_iff_eq] at hcell
  refine ⟨rt, c, reach_of_run hrt, hc, hcell.1.2, hcell.2, ?_⟩
  have hcut := cutover_all_or_nothing (reach_of_run hrt) 0 1 1 0 hc hcell.1.1
  split at hcut
  · rename_i rt' answer hcommit
    rw [hcommit]
    exact hcut
  · rename_i rt' e hcommit
    rw [hcommit] at hok
    contradiction

end Runtime

end Cordis
