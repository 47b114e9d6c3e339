import Cordis.Dispatch.Selection
import Cordis.Library.Threads

/-!
# The run of a chain

`snapshot` looks at the entries of the registry one after the other while selectors may be switched; the chain that
it returns is what the attempt has found. `run_chain` calls the entry at its index and hands it a `NextInvocation`
for the one behind. `run` consumes the `NextInvocation`, so of all frames of an invocation only the last can go on,
in the future of `invoke` or in a task that a middleware has moved it to.
-/

namespace Cordis.Invocation

open Machine

variable {s t s₀ : State}

/-! ## What an attempt finds -/

/-- What the attempt has found of gate `g`: whether the selector named its generation. -/
def State.found (s : State) (g : Nat) : Option Bool :=
  (s.cache.lookup (s.gates.selector g)).map (· == s.gates.generation g)

/-- What an attempt works on. -/
structure View where
  registry : RegistryState
  scopes : List ScopeId
  key : Nat
  found : Nat → Option Bool

def State.view (s : State) : View := ⟨s.registry, s.scopes, s.key, s.found⟩

namespace View

variable (v : View)

/-- The middleware is one of the invocation, and was found visible. -/
def joins (e : MiddlewareEntry) : Bool := e.scope ∈ v.scopes ∧ e.key = v.key ∧ v.found e.gate = some true

/-- The handler was found visible, and those for the key in Scopes nearer to the caller were found hidden. -/
structure Nearest (handler : HandlerEntry) : Prop where
  filed : handler ∈ v.registry.handlers
  key : handler.key = v.key
  visible : v.found handler.gate = some true
  hidden : ∃ outer inner, v.scopes = outer ++ handler.scope :: inner ∧
    ∀ e ∈ v.registry.handlers, e.scope ∈ inner → e.key = v.key → v.found e.gate = some false

/-- Of the middleware in `entries` the attempt has kept what joins, with its depth. -/
structure Collected (entries : List MiddlewareEntry) (kept : List (Nat × MiddlewareEntry)) : Prop where
  looked : ∀ e ∈ entries, e.scope ∈ v.scopes → e.key = v.key → v.found e.gate ≠ none
  kept : kept = (entries.filter v.joins).map fun e => (v.scopes.idxOf e.scope, e)

end View

/-- Middleware sorts by depth and then by registration. -/
def Before (a b : Nat × MiddlewareEntry) : Prop := a.1 < b.1 ∨ a.1 = b.1 ∧ a.2.order ≤ b.2.order

instance : DecidableRel Before := fun _ _ => inferInstanceAs (Decidable (_ ∨ _))

theorem sortMiddleware_pairwise (kept : List (Nat × MiddlewareEntry)) : (sortMiddleware kept).Pairwise Before := by
  have : Std.Total Before := ⟨fun a b => by unfold Before; omega⟩
  have : IsTrans (Nat × MiddlewareEntry) Before := ⟨fun a b c => by unfold Before; omega⟩
  exact List.pairwise_insertionSort Before kept

/-- The chain is all the middleware that joins, in order, and then the nearest handler. -/
def View.Arranged (v : View) (chain : List Nat) : Prop :=
  ∃ (handler : HandlerEntry) (kept sorted : List (Nat × MiddlewareEntry)), v.Nearest handler ∧
    v.Collected v.registry.middleware kept ∧ sorted.Perm kept ∧ sorted.Pairwise Before ∧
    chain = sorted.map (·.2.gate) ++ [handler.gate]

/-- What the attempt has found so far. -/
def Pc.Looking (v : View) : Pc → Prop
  | .find left entries => (∃ done, v.scopes.reverse = done ++ left ∧
      ∀ e ∈ v.registry.handlers, e.scope ∈ done → e.key = v.key → v.found e.gate = some false) ∧
    ∃ passed, v.registry.handlers = passed ++ entries ∧
      ∀ e ∈ passed, left.head? = some e.scope → e.key = v.key → v.found e.gate = some false
  | .middleware handler entries kept => v.Nearest handler ∧
    ∃ passed, v.registry.middleware = passed ++ entries ∧ v.Collected passed kept
  | .acquire chain _ => v.Arranged chain
  | _ => True

/-- Nothing that was found is forgotten. -/
structure View.Extends (v w : View) : Prop where
  registry : w.registry = v.registry
  scopes : w.scopes = v.scopes
  key : w.key = v.key
  found : ∀ g b, v.found g = some b → w.found g = some b

namespace View

variable {v w : View}

theorem joins_iff {e : MiddlewareEntry} :
    v.joins e = true ↔ e.scope ∈ v.scopes ∧ e.key = v.key ∧ v.found e.gate = some true :=
  decide_eq_true_iff

theorem Nearest.extends {handler : HandlerEntry} (h : v.Nearest handler) (hw : v.Extends w) :
    w.Nearest handler := by
  obtain ⟨outer, inner, hscopes, hhidden⟩ := h.hidden
  refine ⟨hw.registry ▸ h.filed, hw.key ▸ h.key, hw.found _ _ h.visible, outer, inner, hw.scopes ▸ hscopes, ?_⟩
  intro e he hscope hkey
  exact hw.found _ _ (hhidden e (hw.registry ▸ he) hscope (hw.key ▸ hkey))

theorem joins_extends {e : MiddlewareEntry} (hw : v.Extends w)
    (hlooked : e.scope ∈ v.scopes → e.key = v.key → v.found e.gate ≠ none) : w.joins e = v.joins e := by
  simp only [joins, hw.scopes, hw.key, decide_eq_decide]
  refine and_congr_right fun hscope => and_congr_right fun hkey => ?_
  obtain ⟨b, hb⟩ := Option.ne_none_iff_exists'.mp (hlooked hscope hkey)
  rw [hb, hw.found _ _ hb]

theorem Collected.extends {entries : List MiddlewareEntry} {kept : List (Nat × MiddlewareEntry)}
    (h : v.Collected entries kept) (hw : v.Extends w) : w.Collected entries kept where
  looked := fun e he hscope hkey => by
    obtain ⟨b, hb⟩ := Option.ne_none_iff_exists'.mp (h.looked e he (hw.scopes ▸ hscope) (hw.key ▸ hkey))
    rw [hw.found _ _ hb]
    exact Option.some_ne_none b
  kept := by
    rw [h.kept, hw.scopes, List.filter_congr fun e he => joins_extends hw (h.looked e he)]

theorem Collected.snoc {passed : List MiddlewareEntry} {kept : List (Nat × MiddlewareEntry)} {e : MiddlewareEntry}
    (h : v.Collected passed kept) (hlooked : e.scope ∈ v.scopes → e.key = v.key → v.found e.gate ≠ none) :
    v.Collected (passed ++ [e])
      (if v.joins e then kept ++ [(v.scopes.idxOf e.scope, e)] else kept) := by
  refine ⟨fun d hd => ?_, ?_⟩
  · rcases List.mem_append.mp hd with hold | hnew
    · exact h.looked d hold
    · exact List.mem_singleton.mp hnew ▸ hlooked
  · rw [List.filter_append, List.map_append, ← h.kept]
    cases hjoins : v.joins e <;> simp [hjoins]

end View

theorem Pc.Looking.extends {v w : View} {pc : Pc} (h : pc.Looking v) (hw : v.Extends w) : pc.Looking w := by
  cases pc with
  | find left entries =>
    obtain ⟨⟨done, hdone, hhidden⟩, passed, hpassed, hhere⟩ := h
    refine ⟨⟨done, hw.scopes ▸ hdone, fun e he hscope hkey => ?_⟩, passed, hw.registry ▸ hpassed,
      fun e he hscope hkey => ?_⟩
    · exact hw.found _ _ (hhidden e (hw.registry ▸ he) hscope (hw.key ▸ hkey))
    · exact hw.found _ _ (hhere e he hscope (hw.key ▸ hkey))
  | middleware handler entries kept =>
    obtain ⟨hnearest, passed, hpassed, hcollected⟩ := h
    exact ⟨hnearest.extends hw, passed, hw.registry ▸ hpassed, hcollected.extends hw⟩
  | acquire chain todo =>
    obtain ⟨handler, kept, sorted, hnearest, hcollected, hsorted⟩ := h
    refine ⟨handler, kept, sorted, hnearest.extends hw, ?_, hsorted⟩
    rw [hw.registry]
    exact hcollected.extends hw
  | _ => trivial

theorem Pc.Looking.nearest {v : View} {scope : ScopeId} {rest : List ScopeId} {entry : HandlerEntry}
    {entries : List HandlerEntry} (h : (Pc.find (scope :: rest) (entry :: entries)).Looking v)
    (hscope : entry.scope = scope) (hkey : entry.key = v.key) (hfound : v.found entry.gate = some true) :
    v.Nearest entry := by
  obtain ⟨⟨done, hdone, hhidden⟩, passed, hpassed, -⟩ := h
  subst hscope
  refine ⟨?_, hkey, hfound, rest.reverse, done.reverse, ?_, fun e he hinner => ?_⟩
  · rw [hpassed]
    exact List.mem_append_right _ (List.mem_cons_self ..)
  · rw [← List.reverse_reverse v.scopes, hdone, List.reverse_append, List.reverse_cons, List.append_assoc]
    rfl
  · exact hhidden e he (List.mem_reverse.mp hinner)

theorem Pc.Looking.passes {v : View} {scope : ScopeId} {rest : List ScopeId} {entry : HandlerEntry}
    {entries : List HandlerEntry} (h : (Pc.find (scope :: rest) (entry :: entries)).Looking v)
    (hpass : entry.scope = scope → entry.key = v.key → v.found entry.gate = some false) :
    (Pc.find (scope :: rest) entries).Looking v := by
  obtain ⟨hdone, passed, hpassed, hhere⟩ := h
  refine ⟨hdone, passed ++ [entry], by rw [hpassed, List.append_assoc]; rfl, fun e he hscope hkey => ?_⟩
  rcases List.mem_append.mp he with hold | hnew
  · exact hhere e hold hscope hkey
  · obtain rfl := List.mem_singleton.mp hnew
    exact hpass (Option.some.inj hscope).symm hkey

/-! ## Steps -/

/-- The invocation stays where it is: somebody else acts. -/
structure Elsewhere (s t : State) : Prop where
  pc : t.pc = s.pc
  cache : t.cache = s.cache
  chain : t.chain = s.chain
  frames : t.frames = s.frames
  scopes : t.scopes = s.scopes
  key : t.key = s.key
  gates : Gates.Same s.gates t.gates
  registry : s.pc.locks = true → t.registry = s.registry

theorem change_elsewhere {r : RegistryState} (hs : s.change r = some t) : Elsewhere s t := by
  unfold State.change at hs
  split_ifs at hs with hlocks
  cases hs
  exact ⟨rfl, rfl, rfl, rfl, rfl, rfl, .refl _, fun h => absurd h hlocks⟩

theorem step_cases {l : Label} (hs : step s l = some t) :
    stepSnapshot s = some t ∨ (∃ c, stepChain s c = some t) ∨ Elsewhere s t := by
  cases l <;> simp only [step] at hs
  case gateOp g op =>
    cases hs
    exact .inr (.inr ⟨rfl, rfl, rfl, rfl, rfl, rfl, .refl _, fun _ => rfl⟩)
  case gate n =>
    split at hs
    · obtain ⟨p, hp, rfl⟩ := Option.map_eq_some_iff.mp hs
      exact .inr (.inr ⟨rfl, rfl, rfl, rfl, rfl, rfl, (stepGate_same hp).1, fun _ => rfl⟩)
    · cases hs
  case lease g =>
    obtain ⟨gates, hgates, rfl⟩ := Option.map_eq_some_iff.mp hs
    obtain ⟨-, rfl⟩ := Gates.tryAcquire_eq hgates
    exact .inr (.inr ⟨rfl, rfl, rfl, rfl, rfl, rfl, s.gates.withExecution_same g _, fun _ => rfl⟩)
  case unlease g =>
    split_ifs at hs
    obtain ⟨gates, hgates, rfl⟩ := Option.map_eq_some_iff.mp hs
    obtain ⟨-, rfl⟩ := Gates.dropInflight_eq hgates
    exact .inr (.inr ⟨rfl, rfl, rfl, rfl, rfl, rfl, s.gates.withExecution_same g _, fun _ => rfl⟩)
  case snapshot => exact .inl hs
  case chain c => exact .inr (.inl ⟨c, hs⟩)
  all_goals exact .inr (.inr (change_elsewhere hs))

theorem stepChain_pc {c : ChainStep} (hs : stepChain s c = some t) :
    (∃ frames, t = { s with frames := frames }) ∨
      s.pc = .invoking ∧ ∃ frames, t = { s with pc := .ending, frames := frames } := by
  have hcall : ∀ (u : State) index task, u.callAt index task = some t →
      ∃ frames, t = { u with frames := frames } := by
    intro u index task hu
    obtain ⟨gate, -, rfl⟩ := Option.map_eq_some_iff.mp hu
    exact ⟨_, rfl⟩
  cases c <;> simp only [stepChain] at hs
  case begin =>
    split_ifs at hs
    exact .inl (hcall _ _ _ hs)
  case next n task =>
    split at hs
    · split_ifs at hs
      obtain ⟨frames, rfl⟩ := hcall _ _ _ hs
      exact .inl ⟨frames, rfl⟩
    · cases hs
  case finish n =>
    split at hs
    · split_ifs at hs
      cases hs
      exact .inl ⟨_, rfl⟩
    · cases hs
  case stop =>
    split_ifs at hs with hpc
    cases hs
    exact .inr ⟨hpc, _, rfl⟩

theorem extends_of_lookup (hregistry : t.registry = s.registry) (hscopes : t.scopes = s.scopes)
    (hkey : t.key = s.key) (hgates : Gates.Same s.gates t.gates)
    (hcache : ∀ k a, s.cache.lookup k = some a → t.cache.lookup k = some a) : s.view.Extends t.view where
  registry := hregistry
  scopes := hscopes
  key := hkey
  found g b hb := by
    obtain ⟨a, ha, rfl⟩ := Option.map_eq_some_iff.mp hb
    show Option.map _ (t.cache.lookup (t.gates.selector g)) = _
    rw [hgates.selector, hgates.generation, hcache _ _ ha]
    rfl

/-- The attempt has looked at gate `g`. -/
def State.looks (s : State) (g : Nat) (pc : Pc) : State :=
  { s with cache := (s.cache.visible s.gates g).1, pc := pc }

theorem found_looks (g : Nat) (pc : Pc) : (s.looks g pc).view.found g = some (s.cache.visible s.gates g).2 := by
  show Option.map _ ((s.cache.visible s.gates g).1.lookup (s.gates.selector g)) = _
  cases hvisible : (s.cache.visible s.gates g).2 with
  | true =>
    rw [VisibilityCache.lookup_of_visible hvisible]
    exact congrArg some (beq_self_eq_true _)
  | false =>
    obtain ⟨a, ha, hne⟩ := VisibilityCache.lookup_of_invisible hvisible
    rw [ha]
    exact congrArg some (beq_false_of_ne hne)

theorem looks_extends (g : Nat) (pc : Pc) : s.view.Extends (s.looks g pc).view :=
  extends_of_lookup rfl rfl rfl (.refl _) fun _ _ => VisibilityCache.lookup_visible

theorem looking_attempt : s.attempt.pc.Looking s.attempt.view :=
  ⟨⟨[], rfl, fun _ _ h => (List.not_mem_nil h).elim⟩, [], rfl, fun _ h => (List.not_mem_nil h).elim⟩

theorem looking_snapshot (h : s.pc.Looking s.view) (hs : stepSnapshot s = some t) : t.pc.Looking t.view := by
  unfold stepSnapshot at hs
  split at hs
  case h_1 =>
    cases hs
    exact looking_attempt
  case h_2 =>
    cases hs
    trivial
  case h_3 scope rest hpc =>
    -- every handler of the Scope has been looked at
    cases hs
    rw [hpc] at h
    obtain ⟨⟨done, hdone, hhidden⟩, passed, hpassed, hhere⟩ := h
    refine ⟨⟨done ++ [scope], by rw [List.append_assoc]; exact hdone, fun e he hscope hkey => ?_⟩, [], rfl,
      fun _ h => (List.not_mem_nil h).elim⟩
    rcases List.mem_append.mp hscope with hold | hnew
    · exact hhidden e he hold hkey
    · refine hhere e ?_ (congrArg some (List.mem_singleton.mp hnew).symm) hkey
      rw [List.append_nil] at hpassed
      exact hpassed ▸ he
  case h_4 scope rest entry entries hpc =>
    rw [hpc] at h
    cases hs
    have hfound := found_looks (s := s) entry.gate
    split_ifs with hfit
    · obtain ⟨hvisible, hscope, hkey⟩ := hfit
      refine ⟨(Pc.Looking.extends h (looks_extends entry.gate _)).nearest hscope hkey ?_, [], rfl,
        fun _ h => (List.not_mem_nil h).elim, rfl⟩
      rw [hfound, hvisible]
    · refine (Pc.Looking.extends h (looks_extends entry.gate _)).passes fun hscope hkey => ?_
      refine (hfound _).trans (congrArg some ?_)
      by_contra hvisible
      exact hfit ⟨by simpa using hvisible, hscope, hkey⟩
  case h_5 handler kept hpc =>
    cases hs
    rw [hpc] at h
    obtain ⟨hnearest, passed, hpassed, hcollected⟩ := h
    rw [List.append_nil] at hpassed
    exact ⟨handler, kept, sortMiddleware kept, hnearest, hpassed ▸ hcollected, List.perm_insertionSort _ kept,
      sortMiddleware_pairwise kept, rfl⟩
  case h_6 handler entry entries kept hpc =>
    rw [hpc] at h
    split_ifs at hs with hscope <;> cases hs
    · obtain ⟨hnearest, passed, hpassed, hcollected⟩ := Pc.Looking.extends h (looks_extends (s := s) entry.gate _)
      refine ⟨hnearest, passed ++ [entry], by rw [List.append_assoc]; exact hpassed, ?_⟩
      have hfound := found_looks (s := s) entry.gate
      have hsnoc := hcollected.snoc (e := entry) fun _ _ => by rw [hfound]; exact Option.some_ne_none _
      refine (congrArg (View.Collected _ _) (if_congr (View.joins_iff.trans ?_) rfl rfl)).mp hsnoc
      rw [hfound, Option.some.injEq]
      exact ⟨fun h => ⟨h.2.2, h.2.1⟩, fun h => ⟨hscope, h.2, h.1⟩⟩
    · obtain ⟨hnearest, passed, hpassed, hcollected⟩ := h
      refine ⟨hnearest, passed ++ [entry], by rw [List.append_assoc]; exact hpassed, ?_⟩
      have hsnoc := hcollected.snoc (e := entry) fun h => absurd h hscope
      rwa [if_neg fun h => hscope (View.joins_iff.mp h).1] at hsnoc
  case h_7 =>
    cases hs
    trivial
  case h_8 chain g todo hpc =>
    split at hs <;> cases hs
    · trivial
    · rename_i gates hgates
      rw [hpc] at h
      obtain ⟨-, rfl⟩ := Gates.tryAcquire_eq hgates
      have hchain : (Pc.acquire chain todo).Looking s.view := h
      exact hchain.extends (extends_of_lookup rfl rfl rfl (s.gates.withExecution_same g _) fun _ _ => id)
  case h_9 hpc =>
    split at hs
    · obtain ⟨gates, -, rfl⟩ := Option.map_eq_some_iff.mp hs
      show Pc.Looking _ s.pc
      rw [hpc]
      trivial
    · split_ifs at hs <;> cases hs
      · trivial
      · exact looking_attempt
  case h_10 hpc =>
    split at hs
    · obtain ⟨gates, -, rfl⟩ := Option.map_eq_some_iff.mp hs
      show Pc.Looking _ s.pc
      rw [hpc]
      trivial
    · cases hs
      trivial
  all_goals cases hs

theorem looking_step {l : Label} (h : s.pc.Looking s.view) (hs : step s l = some t) : t.pc.Looking t.view := by
  rcases step_cases hs with hs | ⟨c, hs⟩ | hs
  · exact looking_snapshot h hs
  · rcases stepChain_pc hs with ⟨frames, rfl⟩ | ⟨-, frames, rfl⟩
    · exact h
    · trivial
  · rw [hs.pc]
    cases hlocks : s.pc.locks with
    | true =>
      exact h.extends (extends_of_lookup (hs.registry hlocks) hs.scopes hs.key hs.gates fun k a ha => hs.cache ▸ ha)
    | false => cases hpc : s.pc <;> first | trivial | (rw [hpc] at hlocks; cases hlocks)

/-! ## What the attempt was told -/

/-- An attempt is under way. -/
def Pc.looks : Pc → Bool
  | .find .. | .middleware .. | .acquire .. => true
  | _ => false

/-- Every selector named what the attempt has found there at some time during the attempt. -/
def Truthful (s₀ s : State) : Prop :=
  ∀ k a, s.cache.lookup k = some a → ∃ s₁, Reach step anyStep s₀ s₁ ∧
    Reach step (fun u _ => u.pc.looks = true) s₁ s ∧ s₁.gates.active k = a

theorem truthful_of_nil (h : s.cache = []) : Truthful s₀ s := by
  intro k a ha
  rw [h] at ha
  cases ha

theorem looks_snapshot (hs : stepSnapshot s = some t) (hlooks : t.pc.looks = true) :
    t.cache = [] ∨ s.pc.looks = true ∧ ∀ k a, t.cache.lookup k = some a →
      s.cache.lookup k = some a ∨ s.gates.active k = a := by
  have hvisible : ∀ g k a, (s.cache.visible s.gates g).1.lookup k = some a →
      s.cache.lookup k = some a ∨ s.gates.active k = a := by
    intro g k a ha
    rcases VisibilityCache.lookup_visible_cases s.cache s.gates g k with heq | ⟨-, heq⟩
    · exact .inl (heq ▸ ha)
    · exact .inr (Option.some.inj (heq.symm.trans ha))
  unfold stepSnapshot at hs
  split at hs
  case h_1 =>
    cases hs
    exact .inl rfl
  case h_2 =>
    cases hs
    cases hlooks
  case h_3 hpc | h_5 hpc =>
    cases hs
    exact .inr ⟨by rw [hpc]; rfl, fun _ _ => .inl⟩
  case h_4 entry entries hpc =>
    cases hs
    exact .inr ⟨by rw [hpc]; rfl, hvisible entry.gate⟩
  case h_6 entry entries kept hpc =>
    split_ifs at hs <;> cases hs
    · exact .inr ⟨by rw [hpc]; rfl, hvisible entry.gate⟩
    · exact .inr ⟨by rw [hpc]; rfl, fun _ _ => .inl⟩
  case h_7 =>
    cases hs
    cases hlooks
  case h_8 hpc =>
    split at hs <;> cases hs
    · cases hlooks
    · exact .inr ⟨by rw [hpc]; rfl, fun _ _ => .inl⟩
  case h_9 hpc =>
    split at hs
    · obtain ⟨gates, -, rfl⟩ := Option.map_eq_some_iff.mp hs
      have hlooks : s.pc.looks = true := hlooks
      rw [hpc] at hlooks
      cases hlooks
    · split_ifs at hs <;> cases hs
      · cases hlooks
      · exact .inl rfl
  case h_10 hpc =>
    split at hs
    · obtain ⟨gates, -, rfl⟩ := Option.map_eq_some_iff.mp hs
      have hlooks : s.pc.looks = true := hlooks
      rw [hpc] at hlooks
      cases hlooks
    · cases hs
      cases hlooks
  all_goals cases hs

theorem truthful_step {l : Label} (hreach : Reach step anyStep s₀ s) (h : s.pc.looks = true → Truthful s₀ s)
    (hs : step s l = some t) (hlooks : t.pc.looks = true) : Truthful s₀ t := by
  have hkept : s.pc.looks = true → (∀ k a, t.cache.lookup k = some a →
      s.cache.lookup k = some a ∨ s.gates.active k = a) → Truthful s₀ t := by
    intro hlooked hcache k a ha
    rcases hcache k a ha with hold | hnow
    · obtain ⟨s₁, hreached, hwhile, hactive⟩ := h hlooked k a hold
      exact ⟨s₁, hreached, .tail hwhile hlooked hs, hactive⟩
    · exact ⟨s, hreach, .tail .refl hlooked hs, hnow⟩
  rcases step_cases hs with hsnapshot | ⟨c, hchain⟩ | helse
  · rcases looks_snapshot hsnapshot hlooks with hnil | ⟨hlooked, hcache⟩
    · exact truthful_of_nil hnil
    · exact hkept hlooked hcache
  · rcases stepChain_pc hchain with ⟨frames, rfl⟩ | ⟨-, frames, rfl⟩
    · exact hkept hlooks fun _ _ => .inl
    · cases hlooks
  · exact hkept (helse.pc ▸ hlooks) fun k a ha => .inl (helse.cache ▸ ha)

/-! ## The hand over -/

theorem handed_snapshot (hs : stepSnapshot s = some t) : t.frames = s.frames ∧ t.scopes = s.scopes ∧ t.key = s.key ∧
    (s.pc.handed = true → t.pc.handed = true ∧ t.chain = s.chain) ∧
    (t.pc.handed = true → s.pc.handed = true ∨ s.pc = .acquire t.chain []) := by
  unfold stepSnapshot at hs
  split at hs
  case h_7 chain hpc =>
    cases hs
    exact ⟨rfl, rfl, rfl, by rw [hpc]; exact nofun, fun _ => .inr hpc⟩
  case h_9 hpc =>
    have hidle : s.pc.handed = false := by rw [hpc]; rfl
    split at hs
    · obtain ⟨gates, -, rfl⟩ := Option.map_eq_some_iff.mp hs
      exact ⟨rfl, rfl, rfl, fun h => ⟨h, rfl⟩, .inl⟩
    · split_ifs at hs <;> cases hs <;> exact ⟨rfl, rfl, rfl, by rw [hidle]; exact nofun, nofun⟩
  case h_10 hpc =>
    split at hs
    · obtain ⟨gates, -, rfl⟩ := Option.map_eq_some_iff.mp hs
      exact ⟨rfl, rfl, rfl, fun h => ⟨h, rfl⟩, .inl⟩
    · cases hs
      exact ⟨rfl, rfl, rfl, fun _ => ⟨rfl, rfl⟩, fun _ => .inl (by rw [hpc]; rfl)⟩
  case h_1 hpc | h_2 hpc | h_3 hpc | h_5 hpc =>
    cases hs
    exact ⟨rfl, rfl, rfl, by rw [hpc]; exact nofun, nofun⟩
  case h_4 hpc =>
    cases hs
    refine ⟨rfl, rfl, rfl, by rw [hpc]; exact nofun, fun h => ?_⟩
    split_ifs at h <;> cases h
  case h_6 hpc =>
    split_ifs at hs <;> cases hs <;> exact ⟨rfl, rfl, rfl, by rw [hpc]; exact nofun, nofun⟩
  case h_8 hpc =>
    split at hs <;> cases hs <;> exact ⟨rfl, rfl, rfl, by rw [hpc]; exact nofun, nofun⟩
  all_goals cases hs

/-- What is run is the chain of an attempt that had every lease. -/
def HandedOver (s₀ s : State) : Prop :=
  ∃ s₁, Reach step anyStep s₀ s₁ ∧ Reach step anyStep s₁ s ∧ s₁.pc = .acquire s.chain [] ∧
    s₁.scopes = s.scopes ∧ s₁.key = s.key

theorem handedOver_step {l : Label} (hreach : Reach step anyStep s₀ s) (h : s.pc.handed = true → HandedOver s₀ s)
    (hs : step s l = some t) (hhanded : t.pc.handed = true) : HandedOver s₀ t := by
  have hkept : s.pc.handed = true → t.chain = s.chain → t.scopes = s.scopes → t.key = s.key → HandedOver s₀ t := by
    intro hold hchain hscopes hkey
    obtain ⟨s₁, hreached, hrest, hpc, hscopes₁, hkey₁⟩ := h hold
    exact ⟨s₁, hreached, .tail hrest trivial hs, hchain ▸ hpc, hscopes₁.trans hscopes.symm, hkey₁.trans hkey.symm⟩
  rcases step_cases hs with hsnapshot | ⟨c, hchain⟩ | helse
  · obtain ⟨-, hscopes, hkey, hstays, hcomes⟩ := handed_snapshot hsnapshot
    rcases hcomes hhanded with hold | hpc
    · exact hkept hold (hstays hold).2 hscopes hkey
    · exact ⟨s, hreach, .tail .refl trivial hs, hpc, hscopes.symm, hkey.symm⟩
  · rcases stepChain_pc hchain with ⟨frames, rfl⟩ | ⟨hpc, frames, rfl⟩
    · exact hkept hhanded rfl rfl rfl
    · exact hkept (by rw [hpc]; rfl) rfl rfl rfl
  · exact hkept (helse.pc ▸ hhanded) helse.chain helse.scopes helse.key

theorem looking_reach (hfresh : Fresh s₀) (h : Reach step anyStep s₀ s) : s.pc.Looking s.view := by
  refine h.invariant (I := fun u => u.pc.Looking u.view) ?_ fun _ _ _ hs _ hstep => looking_step hs hstep
  rw [hfresh.pc]
  trivial

theorem truthful_reach (hfresh : Fresh s₀) (h : Reach step anyStep s₀ s) :
    s.pc.looks = true → Truthful s₀ s := by
  induction h with
  | refl =>
    rw [hfresh.pc]
    exact nofun
  | tail hreach _ hstep ih => exact truthful_step hreach ih hstep

theorem handedOver_reach (hfresh : Fresh s₀) (h : Reach step anyStep s₀ s) :
    s.pc.handed = true → HandedOver s₀ s := by
  induction h with
  | refl =>
    rw [hfresh.pc]
    exact nofun
  | tail hreach _ hstep ih => exact handedOver_step hreach ih hstep

/-! ## The frames -/

/-- The frames are the entries of the chain up to some place, and only the last can go on. -/
structure Running (s : State) : Prop where
  handed : s.frames ≠ [] → s.pc.handed = true
  index : s.frames.map (·.index) = List.range s.frames.length
  gate : s.frames.map (·.gate) = s.chain.take s.frames.length
  last : ∀ (n : Nat) (f : Frame), s.frames[n]? = some f → f.next = true → n + 1 = s.frames.length

theorem running_fresh (h : Fresh s) : Running s where
  handed := fun hne => absurd h.frames hne
  index := by rw [h.frames]; rfl
  gate := by rw [h.frames]; rfl
  last := by
    intro n f hn
    rw [h.frames] at hn
    cases hn

theorem Running.selects (h : Running s) (hframes : t.frames = s.frames)
    (hstays : s.pc.handed = true → t.pc.handed = true ∧ t.chain = s.chain) : Running t where
  handed hne := (hstays (h.handed (hframes ▸ hne))).1
  index := by rw [hframes, h.index]
  gate := by
    rw [hframes, h.gate]
    by_cases hne : s.frames = []
    · rw [hne]
      rfl
    · rw [(hstays (h.handed hne)).2]
  last := by
    rw [hframes]
    exact h.last

theorem Running.stops (h : Running s) (hhanded : t.pc.handed = s.pc.handed) (hchain : t.chain = s.chain)
    (hlength : t.frames.length = s.frames.length)
    (hframes : ∀ (n : Nat) (f : Frame), t.frames[n]? = some f →
      ∃ g, s.frames[n]? = some g ∧ f.index = g.index ∧ f.gate = g.gate ∧
      (f.next = true → g.next = true)) : Running t := by
  have hmap : ∀ field : Frame → Nat,
      (∀ (n : Nat) (f : Frame), t.frames[n]? = some f → ∃ g, s.frames[n]? = some g ∧ field f = field g) →
      t.frames.map field = s.frames.map field := by
    intro field hfield
    refine List.ext_getElem? fun n => ?_
    rw [List.getElem?_map, List.getElem?_map]
    cases hn : t.frames[n]? with
    | none => rw [List.getElem?_eq_none (hlength ▸ List.getElem?_eq_none_iff.mp hn)]
    | some f =>
      obtain ⟨g, hg, heq⟩ := hfield n f hn
      rw [hg, Option.map_some, Option.map_some, heq]
  refine ⟨fun hne => ?_, ?_, ?_, fun n f hn hnext => ?_⟩
  · rw [hhanded]
    refine h.handed fun hnil => hne (List.eq_nil_of_length_eq_zero ?_)
    rw [hlength, hnil]
    rfl
  · rw [hlength, ← h.index]
    refine hmap (·.index) fun n f hn => ?_
    obtain ⟨g, hg, hindex, -, -⟩ := hframes n f hn
    exact ⟨g, hg, hindex⟩
  · rw [hlength, hchain, ← h.gate]
    refine hmap (·.gate) fun n f hn => ?_
    obtain ⟨g, hg, -, hgate, -⟩ := hframes n f hn
    exact ⟨g, hg, hgate⟩
  · obtain ⟨g, hg, -, -, hkept⟩ := hframes n f hn
    rw [hlength]
    exact h.last n g hg (hkept hnext)

/-- The entry behind the last frame is called; no other frame could go on. -/
theorem Running.calls (h : Running s) (task : Bool) (hhanded : s.pc.handed = true)
    (hspent : ∀ f ∈ s.frames, f.next = false) (ht : s.callAt s.frames.length task = some t) : Running t := by
  obtain ⟨gate, hgate, rfl⟩ := Option.map_eq_some_iff.mp ht
  refine ⟨fun _ => hhanded, ?_, ?_, fun n f hn hnext => ?_⟩
  · show (s.frames ++ [_]).map Frame.index = List.range (s.frames ++ [_]).length
    rw [List.map_append, h.index, List.length_append, List.length_singleton, List.range_succ]
    rfl
  · show (s.frames ++ [_]).map Frame.gate = s.chain.take (s.frames ++ [_]).length
    rw [List.map_append, h.gate, List.length_append, List.length_singleton, List.take_add_one, hgate]
    rfl
  · have hn : (s.frames ++ [_])[n]? = some f := hn
    show n + 1 = (s.frames ++ [_]).length
    rw [List.length_append, List.length_singleton]
    by_cases hlt : n < s.frames.length
    · rw [List.getElem?_append_left hlt] at hn
      rw [hspent f (List.mem_of_getElem? hn)] at hnext
      cases hnext
    · have hbound := (List.getElem?_eq_some_iff.mp hn).1
      rw [List.length_append, List.length_singleton] at hbound
      omega

theorem Running.length_le (h : Running s) : s.frames.length ≤ s.chain.length := by
  have hlength := congrArg List.length h.gate
  rw [List.length_map, List.length_take] at hlength
  omega

theorem running_chain {c : ChainStep} (h : Running s) (hs : stepChain s c = some t) : Running t := by
  cases c <;> simp only [stepChain] at hs
  case begin =>
    split_ifs at hs with hbegin
    refine h.calls false (by rw [hbegin.1]; rfl) (fun f hf => ?_) (by rw [hbegin.2]; exact hs)
    rw [hbegin.2] at hf
    cases hf
  case next n task =>
    split at hs
    · rename_i f hf
      split_ifs at hs with hnext
      have hlast := h.last n f hf hnext.1
      have hindex : f.index = n := by
        have hat : (s.frames.map (·.index))[n]? = some f.index := by rw [List.getElem?_map, hf, Option.map_some]
        rw [h.index, List.getElem?_range (List.getElem?_eq_some_iff.mp hf).1] at hat
        exact (Option.some.inj hat).symm
      have hspent : Running { s with frames := s.frames.set n { f with next := false } } := by
        refine h.stops rfl rfl (List.length_set ..) fun m g hg => ?_
        rcases (Threads.get_set hf).mp hg with ⟨rfl, rfl⟩ | ⟨-, hold⟩
        · exact ⟨f, hf, rfl, rfl, fun hnext => absurd hnext Bool.false_ne_true⟩
        · exact ⟨g, hold, rfl, rfl, id⟩
      refine hspent.calls (f.task || task) (h.handed (List.ne_nil_of_mem (List.mem_of_getElem? hf)))
        (fun g hg => ?_) ?_
      · obtain ⟨m, hm⟩ := List.getElem?_of_mem hg
        rcases (Threads.get_set hf).mp hm with ⟨-, rfl⟩ | ⟨hmn, hold⟩
        · rfl
        · -- only frame `n` could go on
          by_contra hstill
          have := h.last m g hold (by simpa using hstill)
          omega
      · show State.callAt _ (s.frames.set n _).length _ = some t
        rw [List.length_set, ← hlast, ← hindex]
        rw [hindex] at hs ⊢
        exact hs
    · cases hs
  case finish n =>
    split at hs
    · rename_i f hf
      split_ifs at hs
      cases hs
      refine h.stops rfl rfl (List.length_set ..) fun m g hg => ?_
      rcases (Threads.get_set hf).mp hg with ⟨rfl, rfl⟩ | ⟨-, hold⟩
      · exact ⟨f, hf, rfl, rfl, id⟩
      · exact ⟨g, hold, rfl, rfl, id⟩
    · cases hs
  case stop =>
    split_ifs at hs with hpc
    cases hs
    refine h.stops (by rw [hpc]; rfl) rfl (List.length_map ..) fun m g hg => ?_
    have hg : (s.frames.map _)[m]? = some g := hg
    rw [List.getElem?_map] at hg
    obtain ⟨f, hf, rfl⟩ := Option.map_eq_some_iff.mp hg
    exact ⟨f, hf, rfl, rfl, id⟩

theorem running_step {l : Label} (h : Running s) (hs : step s l = some t) : Running t := by
  rcases step_cases hs with hs | ⟨c, hs⟩ | hs
  · obtain ⟨hframes, -, -, hstays, -⟩ := handed_snapshot hs
    exact h.selects hframes hstays
  · exact running_chain h hs
  · exact h.selects hs.frames fun hhanded => ⟨hs.pc ▸ hhanded, hs.chain⟩

/-- However the middleware uses its `NextInvocation`, in place, in a task that outlives the invocation or not at
all: the entries of the chain are called in its order, each at most once, so the handler after all the middleware,
and only the entry called last can still go on. The chain is what an attempt of `snapshot` arranged of the registry
it had locked: the visible middleware by depth and registration, and then the nearest visible handler, where what
the attempt takes for visible or hidden was so at some time while it looked. -/
theorem chain_runs_in_order (hfresh : Fresh s₀) (h : Reach step anyStep s₀ s) :
    s.frames.map (·.index) = List.range s.frames.length ∧
      s.frames.map (·.gate) = s.chain.take s.frames.length ∧ s.frames.length ≤ s.chain.length ∧
      (∀ (n : Nat) (f : Frame), s.frames[n]? = some f → f.next = true → n + 1 = s.frames.length) ∧
      (s.frames ≠ [] → ∃ s₁, Reach step anyStep s₀ s₁ ∧ Reach step anyStep s₁ s ∧ s₁.scopes = s.scopes ∧
        s₁.key = s.key ∧ s₁.view.Arranged s.chain ∧ Truthful s₀ s₁) := by
  have hs : Running s := h.invariant (running_fresh hfresh) fun _ _ _ hs _ hstep => running_step hs hstep
  refine ⟨hs.index, hs.gate, hs.length_le, hs.last, fun hne => ?_⟩
  obtain ⟨s₁, hreached, hrest, hpc, hscopes, hkey⟩ := handedOver_reach hfresh h (hs.handed hne)
  have hlooking := looking_reach hfresh hreached
  rw [hpc] at hlooking
  exact ⟨s₁, hreached, hrest, hscopes, hkey, hlooking, truthful_reach hfresh hreached (by rw [hpc]; rfl)⟩

/-- The middleware returns, and the task that it has moved its `NextInvocation` to runs the handler. -/
theorem chain_runs_in_order_detached : ∃ s, run step Dispatch.invoked Dispatch.detachedRun = some s ∧
    s.frames.map (·.index) = List.range 2 ∧ s.frames.map (·.gate) = s.chain.take 2 ∧ s.pc = .ended ∧
    ∃ s₁, Reach step anyStep Dispatch.invoked s₁ ∧ s₁.scopes = [0] ∧ s₁.key = 0 ∧ s₁.view.Arranged s.chain := by
  obtain ⟨s, hs, hlength, hpc, hscopes, hkey⟩ : ∃ s, run step Dispatch.invoked Dispatch.detachedRun = some s ∧
      s.frames.length = 2 ∧ s.pc = .ended ∧ s.scopes = [0] ∧ s.key = 0 := ⟨_, rfl, rfl, rfl, rfl, rfl⟩
  obtain ⟨hindex, hgate, -, -, harranged⟩ := chain_runs_in_order Dispatch.fresh_invoked (reach_of_run hs)
  rw [hlength] at hindex hgate
  obtain ⟨s₁, hreached, -, hscopes₁, hkey₁, hchain, -⟩ :=
    harranged fun hnil => by rw [hnil] at hlength; cases hlength
  exact ⟨s, hs, hindex, hgate, hpc, s₁, hreached, hscopes₁.trans hscopes, hkey₁.trans hkey, hchain⟩

end Cordis.Invocation
