import Cordis.Dispatch.Snapshot
import Cordis.Gate.Selector

/-!
# What a snapshot selects

`InvocationRegistry` with the order that it gives to middleware, and `snapshot` as one function of
registry and gates, for a call during which nobody else works on the gates. Entries are numbered as they
are registered; the arenas may list them in any order.
-/

namespace Cordis.Invocation

open Machine

structure Registry where
  state : RegistryState
  nextHandler : Nat
  nextMiddleware : Nat
  nextOrder : Nat

/-- A change of the registry; a new entry comes anywhere in its arena. -/
inductive RegistryLabel
  | registerHandler (place : Nat) (scope : ScopeId) (key gate : Nat)
  | registerMiddleware (place : Nat) (scope : ScopeId) (key gate : Nat)
  | removeHandler (id : Nat)
  | removeMiddleware (id : Nat)
  | commitRevision (handlers middleware : List Nat) (target : ScopeId)

namespace Registry

def empty : Registry := ⟨⟨[], []⟩, 0, 0, 0⟩

/-- Whether `register_handler` finds a duplicate is left open. -/
def step (r : Registry) : RegistryLabel → Option Registry
  | .registerHandler place scope key gate =>
    some { r with
      state := { r.state with
        handlers := r.state.handlers.take place ++
          ⟨r.nextHandler, scope, key, gate⟩ :: r.state.handlers.drop place }
      nextHandler := r.nextHandler + 1 }
  | .registerMiddleware place scope key gate =>
    some { r with
      state := { r.state with
        middleware := r.state.middleware.take place ++
          ⟨r.nextMiddleware, scope, key, gate, r.nextOrder⟩ :: r.state.middleware.drop place }
      nextMiddleware := r.nextMiddleware + 1
      nextOrder := (r.nextOrder + 1) % 2 ^ 64 }
  | .removeHandler id =>
    some { r with state := { r.state with handlers := r.state.handlers.filter (·.id ≠ id) } }
  | .removeMiddleware id =>
    some { r with state := { r.state with middleware := r.state.middleware.filter (·.id ≠ id) } }
  | .commitRevision handlers middleware target =>
    some { r with state := r.state.commitRevision handlers middleware target }

end Registry

/-! ## `snapshot` -/

/-- How `snapshot` fails. -/
inductive SnapshotError
  | InvocationHandlerNotFound (key : Nat)
  | InvocationGenerationChanged
  deriving DecidableEq

/-- What `snapshot` selects. -/
structure Selection where
  handler : HandlerEntry
  middleware : List MiddlewareEntry
  deriving DecidableEq

/-- The gates of the chain, in the order in which they are leased. -/
def Selection.gates (sel : Selection) : List Nat := sel.handler.gate :: sel.middleware.map (·.gate)

section Select

variable (gates : Gates) (key : Nat)

/-- The search for a handler in one Scope. -/
def findIn (scope : ScopeId) : VisibilityCache → List HandlerEntry → VisibilityCache × Option HandlerEntry
  | cache, [] => (cache, none)
  | cache, entry :: entries =>
    let p := cache.visible gates entry.gate
    if p.2 ∧ entry.scope = scope ∧ entry.key = key then (p.1, some entry)
    else findIn scope p.1 entries

/-- The search for a handler, Scope by Scope. -/
def findHandler (entries : List HandlerEntry) :
    VisibilityCache → List ScopeId → VisibilityCache × Option HandlerEntry
  | cache, [] => (cache, none)
  | cache, scope :: scopes =>
    match findIn gates key scope cache entries with
    | (cache, some entry) => (cache, some entry)
    | (cache, none) => findHandler entries cache scopes

/-- The collection of middleware, with the depth of its Scope. -/
def collect (scopes : List ScopeId) :
    VisibilityCache → List MiddlewareEntry → List (Nat × MiddlewareEntry)
  | _, [] => []
  | cache, entry :: entries =>
    if entry.scope ∈ scopes then
      let p := cache.visible gates entry.gate
      if p.2 ∧ entry.key = key then (scopes.idxOf entry.scope, entry) :: collect scopes p.1 entries
      else collect scopes p.1 entries
    else collect scopes cache entries

/-- What one attempt selects. -/
def select (r : RegistryState) (scopes : List ScopeId) : Option Selection :=
  match findHandler gates key r.handlers [] scopes.reverse with
  | (_, none) => none
  | (cache, some handler) =>
    some ⟨handler, (sortMiddleware (collect gates key scopes cache r.middleware)).map (·.2)⟩

end Select

/-- Leases are taken one by one, up to the first that is refused. -/
def acquireAll (gates : Gates) : List Nat → Gates × List Nat × Bool
  | [] => (gates, [], true)
  | g :: rest =>
    match gates.tryAcquire g with
    | none => (gates, [], false)
    | some gates =>
      match acquireAll gates rest with
      | (gates, leases, admitted) => (gates, g :: leases, admitted)

/-- Leases are dropped. -/
def release (gates : Gates) (leases : List Nat) : Gates :=
  leases.foldl (fun gates g => (gates.dropInflight g).getD gates) gates

/-- The attempts of `snapshot`; `more` are left after this one. -/
def attempts (r : RegistryState) (scopes : List ScopeId) (key : Nat) :
    Nat → Gates → Gates × Except SnapshotError (Selection × List Nat)
  | more, gates =>
    match select gates key r scopes with
    | none => (gates, .error (.InvocationHandlerNotFound key))
    | some sel =>
      match acquireAll gates sel.gates with
      | (gates, leases, true) => (gates, .ok (sel, leases))
      | (gates, leases, false) =>
        match more with
        | 0 => (release gates leases, .error .InvocationGenerationChanged)
        | more + 1 => attempts r scopes key more (release gates leases)

/-- `snapshot`: the gates as it leaves them, and what it returns with the gates that are leased. -/
def snapshot (r : RegistryState) (gates : Gates) (scopes : List ScopeId) (key : Nat) :
    Gates × Except SnapshotError (Selection × List Nat) :=
  attempts r scopes key 1 gates

/-! ## The specification -/

/-- `entry` would do for the key, as far as its gate is concerned. -/
def HandlerEntry.Offers (entry : HandlerEntry) (gates : Gates) (scopes : List ScopeId) (key : Nat) : Prop :=
  gates.active (gates.selector entry.gate) = gates.generation entry.gate ∧ entry.key = key ∧
    entry.scope ∈ scopes

@[inherit_doc HandlerEntry.Offers]
def MiddlewareEntry.Offers (entry : MiddlewareEntry) (gates : Gates) (scopes : List ScopeId) (key : Nat) : Prop :=
  gates.active (gates.selector entry.gate) = gates.generation entry.gate ∧ entry.key = key ∧
    entry.scope ∈ scopes

/-- The handler of the deepest Scope that has one, and every middleware on the way to the leaf: outer
Scopes first, and in a Scope in the order of registration. -/
structure Selects (r : RegistryState) (gates : Gates) (scopes : List ScopeId) (key : Nat)
    (sel : Selection) : Prop where
  handler : sel.handler ∈ r.handlers ∧ sel.handler.Offers gates scopes key
  deepest : ∀ entry ∈ r.handlers, entry.Offers gates scopes key →
    scopes.idxOf entry.scope ≤ scopes.idxOf sel.handler.scope
  middleware : ∀ entry, entry ∈ sel.middleware ↔ entry ∈ r.middleware ∧ entry.Offers gates scopes key
  once : sel.middleware.Nodup
  ordered : sel.middleware.Pairwise fun a b => scopes.idxOf a.scope < scopes.idxOf b.scope ∨
    scopes.idxOf a.scope = scopes.idxOf b.scope ∧ a.id < b.id

/-! ## The order of registration -/

/-- Middleware has the number of its registration, which is also its order as long as that fits. -/
structure Registry.Filed (r : Registry) : Prop where
  order : r.nextOrder = r.nextMiddleware % 2 ^ 64
  known : ∀ e ∈ r.state.middleware, e.id < r.nextMiddleware ∧ e.order = e.id % 2 ^ 64
  distinct : (r.state.middleware.map (·.id)).Nodup

theorem filed_step {r r' : Registry} {l : RegistryLabel} (h : r.Filed) (hs : r.step l = some r') : r'.Filed := by
  obtain ⟨horder, hknown, hdistinct⟩ := h
  cases l with
  | registerHandler | removeHandler =>
    cases hs
    exact ⟨horder, hknown, hdistinct⟩
  | removeMiddleware id =>
    cases hs
    exact ⟨horder, fun _ he => hknown _ (List.mem_of_mem_filter he),
      hdistinct.sublist (List.filter_sublist.map _)⟩
  | commitRevision handlers middleware target =>
    cases hs
    have hsame : ∀ e : MiddlewareEntry,
        (if e.id ∈ middleware then { e with scope := target } else e).id = e.id ∧
          (if e.id ∈ middleware then { e with scope := target } else e).order = e.order := by
      intro e
      split_ifs <;> exact ⟨rfl, rfl⟩
    refine ⟨horder, fun e he => ?_, ?_⟩
    · obtain ⟨e₀, he₀, rfl⟩ := List.mem_map.mp he
      rw [(hsame e₀).1, (hsame e₀).2]
      exact hknown e₀ he₀
    · have hids : (r.state.commitRevision handlers middleware target).middleware.map (·.id) =
          r.state.middleware.map (·.id) := by
        simp only [RegistryState.commitRevision, List.map_map]
        exact List.map_congr_left fun e _ => (hsame e).1
      show ((r.state.commitRevision handlers middleware target).middleware.map (·.id)).Nodup
      rw [hids]
      exact hdistinct
  | registerMiddleware place scope key gate =>
    cases hs
    have hperm : (r.state.middleware.take place ++
        ⟨r.nextMiddleware, scope, key, gate, r.nextOrder⟩ :: r.state.middleware.drop place).Perm
          (⟨r.nextMiddleware, scope, key, gate, r.nextOrder⟩ :: r.state.middleware) := by
      refine List.perm_middle.trans (List.Perm.cons _ ?_)
      rw [List.take_append_drop]
    refine ⟨by simp only [horder]; omega, fun e he => ?_, ?_⟩
    · rcases List.mem_cons.mp (hperm.mem_iff.mp he) with rfl | hold
      · exact ⟨Nat.lt_succ_self _, horder⟩
      · obtain ⟨hlt, he'⟩ := hknown e hold
        exact ⟨Nat.lt_succ_of_lt hlt, he'⟩
    · refine (hperm.map _).nodup_iff.mpr (List.nodup_cons.mpr ⟨fun hmem => ?_, hdistinct⟩)
      obtain ⟨e, he, heq⟩ := List.mem_map.mp hmem
      exact absurd heq (Nat.ne_of_lt (hknown e he).1)

theorem filed_empty : Registry.empty.Filed :=
  ⟨rfl, fun _ he => absurd he List.not_mem_nil, List.nodup_nil⟩

theorem filed_reach {r : Registry} (h : Reach Registry.step anyStep .empty r) : r.Filed :=
  h.invariant filed_empty fun _ _ _ hf _ hs => filed_step hf hs

/-! ## The search -/

/-- The cache tells what the selectors are. -/
def Agrees (cache : VisibilityCache) (gates : Gates) : Prop :=
  ∀ k a, cache.lookup k = some a → a = gates.active k

section Search

variable {gates : Gates} {key : Nat} {scopes : List ScopeId} {cache : VisibilityCache}

theorem agrees_nil (gates : Gates) : Agrees [] gates := nofun

theorem Agrees.visible (h : Agrees cache gates) (g : Nat) :
    Agrees (cache.visible gates g).1 gates ∧
      (cache.visible gates g).2 = decide (gates.active (gates.selector g) = gates.generation g) := by
  have hagrees : Agrees (cache.visible gates g).1 gates := by
    intro k a hk
    rcases VisibilityCache.lookup_visible_cases cache gates g k with hsame | ⟨-, hnew⟩
    · exact h k a (hsame ▸ hk)
    · rw [hnew] at hk
      exact (Option.some.inj hk).symm
  refine ⟨hagrees, ?_⟩
  cases hv : (cache.visible gates g).2 with
  | true =>
    have hactive := hagrees _ _ (VisibilityCache.lookup_of_visible hv)
    exact (decide_eq_true hactive.symm).symm
  | false =>
    obtain ⟨a, ha, hne⟩ := VisibilityCache.lookup_of_invisible hv
    rw [hagrees _ _ ha] at hne
    exact (decide_eq_false hne).symm

/-- The handlers that the search in `scope` stops at. -/
def fits (gates : Gates) (key : Nat) (scope : ScopeId) (entry : HandlerEntry) : Bool :=
  gates.active (gates.selector entry.gate) = gates.generation entry.gate ∧ entry.scope = scope ∧
    entry.key = key

variable (key) in
theorem findIn_eq (scope : ScopeId) (entries : List HandlerEntry) : ∀ cache, Agrees cache gates →
    Agrees (findIn gates key scope cache entries).1 gates ∧
      (findIn gates key scope cache entries).2 = entries.find? (fits gates key scope) := by
  induction entries with
  | nil => exact fun cache h => ⟨h, rfl⟩
  | cons entry entries ih =>
    intro cache h
    obtain ⟨hagrees, hvisible⟩ := h.visible entry.gate
    rw [findIn, List.find?_cons]
    simp only [hvisible, decide_eq_true_eq]
    by_cases hfits : fits gates key scope entry = true
    · rw [if_pos (of_decide_eq_true hfits), hfits]
      exact ⟨hagrees, rfl⟩
    · rw [if_neg (fun h => hfits (decide_eq_true h)), Bool.eq_false_of_not_eq_true hfits]
      exact ih _ hagrees

variable (key) in
theorem findHandler_eq (entries : List HandlerEntry) (scopes : List ScopeId) : ∀ cache, Agrees cache gates →
    Agrees (findHandler gates key entries cache scopes).1 gates ∧
      (findHandler gates key entries cache scopes).2 =
        scopes.findSome? fun scope => entries.find? (fits gates key scope) := by
  induction scopes with
  | nil => exact fun cache h => ⟨h, rfl⟩
  | cons scope scopes ih =>
    intro cache h
    obtain ⟨hagrees, hfind⟩ := findIn_eq key scope entries cache h
    rw [findHandler, List.findSome?_cons]
    generalize findIn gates key scope cache entries = p at hagrees hfind
    obtain ⟨cache', answer⟩ := p
    simp only at hagrees hfind
    subst hfind
    cases entries.find? (fits gates key scope) with
    | none => exact ih cache' hagrees
    | some entry => exact ⟨hagrees, rfl⟩

/-- The middleware that is collected. -/
def joins (gates : Gates) (key : Nat) (scopes : List ScopeId) (entry : MiddlewareEntry) : Bool :=
  gates.active (gates.selector entry.gate) = gates.generation entry.gate ∧ entry.key = key ∧
    entry.scope ∈ scopes

theorem collect_eq (entries : List MiddlewareEntry) : ∀ cache, Agrees cache gates →
    collect gates key scopes cache entries =
      (entries.filter (joins gates key scopes)).map fun e => (scopes.idxOf e.scope, e) := by
  induction entries with
  | nil => exact fun cache h => rfl
  | cons entry entries ih =>
    intro cache h
    obtain ⟨hagrees, hvisible⟩ := h.visible entry.gate
    rw [collect, List.filter_cons]
    simp only [hvisible, decide_eq_true_eq]
    by_cases hscope : entry.scope ∈ scopes
    · rw [if_pos hscope]
      by_cases hjoins : joins gates key scopes entry = true
      · obtain ⟨hv, hk, -⟩ := of_decide_eq_true hjoins
        rw [if_pos ⟨hv, hk⟩, if_pos hjoins, List.map_cons, ih _ hagrees]
      · rw [if_neg (fun h => hjoins (decide_eq_true ⟨h.1, h.2, hscope⟩)), if_neg hjoins, ih _ hagrees]
    · have hjoins : ¬ joins gates key scopes entry = true := fun h => hscope (of_decide_eq_true h).2.2
      rw [if_neg hscope, if_neg hjoins, ih _ h]

theorem deepest_of_findSome {entries : List HandlerEntry} {handler : HandlerEntry} (hpath : scopes.Nodup)
    (h : (scopes.reverse.findSome? fun scope => entries.find? (fits gates key scope)) = some handler) :
    (handler ∈ entries ∧ handler.Offers gates scopes key) ∧ ∀ entry ∈ entries,
      entry.Offers gates scopes key → scopes.idxOf entry.scope ≤ scopes.idxOf handler.scope := by
  obtain ⟨inner, scope, outer, hscopes, hfind, hnone⟩ := List.findSome?_eq_some_iff.mp h
  have hmem := List.mem_of_find?_eq_some hfind
  have hfits : fits gates key scope handler = true := List.find?_some hfind
  obtain ⟨hvisible, hscope, hkey⟩ := of_decide_eq_true hfits
  -- the Scopes, from the root: outer ones, the one that was found, and inner ones
  have hsplit : scopes = outer.reverse ++ scope :: inner.reverse := by
    have hrev := congrArg List.reverse hscopes
    simpa using hrev
  refine ⟨⟨hmem, hvisible, hkey, ?_⟩, fun entry hentry hoffers => ?_⟩
  · rw [hscope, hsplit]
    simp
  obtain ⟨hvisible', hkey', hscope'⟩ := hoffers
  have hfound : scopes.idxOf handler.scope = outer.length := by
    rw [hscope, hsplit, List.idxOf_append_of_notMem, List.idxOf_cons_self, List.length_reverse, Nat.add_zero]
    intro hin
    rw [hsplit, List.nodup_append] at hpath
    exact hpath.2.2 _ hin _ List.mem_cons_self rfl
  rw [hfound]
  have hnot : entry.scope ∉ inner := by
    intro hin
    have hempty := hnone _ hin
    rw [List.find?_eq_none] at hempty
    exact hempty entry hentry (decide_eq_true ⟨hvisible', rfl, hkey'⟩)
  rw [hsplit] at hscope'
  rcases List.mem_append.mp hscope' with hout | hin
  · rw [hsplit, List.idxOf_append_of_mem hout]
    have := List.idxOf_lt_length_of_mem hout
    rw [List.length_reverse] at this
    omega
  · rcases List.mem_cons.mp hin with heq | hin
    · rw [heq, ← hscope, hfound]
    · exact absurd (List.mem_reverse.mp hin) hnot

theorem sortMiddleware_ordered {kept : List (Nat × MiddlewareEntry)}
    (hdepth : ∀ p ∈ kept, p.1 = scopes.idxOf p.2.scope) (horder : ∀ p ∈ kept, p.2.order = p.2.id)
    (hdistinct : (kept.map (·.2.id)).Nodup) :
    ((sortMiddleware kept).map (·.2)).Pairwise fun a b => scopes.idxOf a.scope < scopes.idxOf b.scope ∨
      scopes.idxOf a.scope = scopes.idxOf b.scope ∧ a.id < b.id := by
  let before : Nat × MiddlewareEntry → Nat × MiddlewareEntry → Prop :=
    fun a b => a.1 < b.1 ∨ a.1 = b.1 ∧ a.2.order ≤ b.2.order
  have : Std.Total before := ⟨fun a b => by simp only [before]; omega⟩
  have : IsTrans _ before := ⟨fun a b c => by simp only [before]; omega⟩
  have hsorted : (sortMiddleware kept).Pairwise before := List.pairwise_insertionSort before kept
  have hperm : (sortMiddleware kept).Perm kept := List.perm_insertionSort _ kept
  have hnodup : ((sortMiddleware kept).map fun p => p.2.id).Nodup :=
    (hperm.map fun p => p.2.id).nodup_iff.mpr hdistinct
  have hapart : (sortMiddleware kept).Pairwise fun a b => a.2.id ≠ b.2.id := List.pairwise_map.mp hnodup
  rw [List.pairwise_map]
  refine (hsorted.and hapart).imp_of_mem fun {a b} ha hb h => ?_
  obtain ⟨hbefore, hne⟩ := h
  rw [← hdepth a (hperm.mem_iff.mp ha), ← hdepth b (hperm.mem_iff.mp hb)]
  simp only [before, horder a (hperm.mem_iff.mp ha), horder b (hperm.mem_iff.mp hb)] at hbefore
  omega

variable (gates key) in
/-- What an attempt selects is what the specification says. -/
theorem select_spec {r : Registry} (hr : r.Filed) (hfew : r.nextMiddleware < 2 ^ 64) (hpath : scopes.Nodup) :
    (select gates key r.state scopes = none ∧
        ∀ entry ∈ r.state.handlers, ¬ entry.Offers gates scopes key) ∨
      ∃ sel, select gates key r.state scopes = some sel ∧ Selects r.state gates scopes key sel := by
  obtain ⟨hagrees, hfind⟩ :=
    findHandler_eq key r.state.handlers scopes.reverse [] (agrees_nil gates)
  unfold select
  generalize findHandler gates key r.state.handlers [] scopes.reverse = p at hagrees hfind
  obtain ⟨cache, answer⟩ := p
  simp only at hagrees hfind
  subst hfind
  cases hfound : scopes.reverse.findSome? fun scope => r.state.handlers.find? (fits gates key scope) with
  | none =>
    refine .inl ⟨rfl, fun entry hentry hoffers => ?_⟩
    obtain ⟨hvisible, hkey, hscope⟩ := hoffers
    have hempty := List.findSome?_eq_none_iff.mp hfound entry.scope (List.mem_reverse.mpr hscope)
    rw [List.find?_eq_none] at hempty
    exact hempty entry hentry (decide_eq_true ⟨hvisible, rfl, hkey⟩)
  | some handler =>
    obtain ⟨hhandler, hdeepest⟩ := deepest_of_findSome hpath hfound
    refine .inr ⟨_, rfl, ?_⟩
    simp only [collect_eq r.state.middleware cache hagrees]
    let chosen := r.state.middleware.filter (joins gates key scopes)
    let kept := chosen.map fun e => (scopes.idxOf e.scope, e)
    have hperm : ((sortMiddleware kept).map (·.2)).Perm chosen := by
      have h := (List.perm_insertionSort
        (fun a b : Nat × MiddlewareEntry => a.1 < b.1 ∨ a.1 = b.1 ∧ a.2.order ≤ b.2.order) kept).map (·.2)
      have hback : kept.map (·.2) = chosen := by
        rw [List.map_map]
        exact List.map_id _
      rwa [hback] at h
    have hids : (chosen.map (·.id)).Nodup :=
      hr.distinct.sublist (List.filter_sublist.map _)
    refine ⟨hhandler, hdeepest, fun entry => ?_, ?_, ?_⟩
    · rw [hperm.mem_iff, List.mem_filter]
      exact and_congr_right fun _ => decide_eq_true_iff
    · exact hperm.nodup_iff.mpr (List.Nodup.of_map _ hids)
    · refine sortMiddleware_ordered ?_ ?_ ?_
      · intro p hp
        obtain ⟨e, -, rfl⟩ := List.mem_map.mp hp
        rfl
      · intro p hp
        obtain ⟨e, he, rfl⟩ := List.mem_map.mp hp
        obtain ⟨hlt, horder⟩ := hr.known e (List.mem_of_mem_filter he)
        rw [horder, Nat.mod_eq_of_lt (hlt.trans hfew)]
      · rw [List.map_map]
        exact hids

end Search

/-! ## The leases -/

variable {gates : Gates}

theorem acquireAll_ok (todo : List Nat) : ∀ gates : Gates, (∀ g ∈ todo, gates.accepting g = true) →
    ∃ gates', acquireAll gates todo = (gates', todo, true) ∧ Gates.Undisturbed gates gates' ∧
      ∀ m, gates'.inflight m = gates.inflight m + todo.count m := by
  induction todo with
  | nil => exact fun gates _ => ⟨gates, rfl, .refl gates, fun _ => rfl⟩
  | cons g todo ih =>
    intro gates haccepting
    obtain ⟨gates₁, hgates₁⟩ := Gates.tryAcquire_of_accepting (haccepting g List.mem_cons_self)
    have hsame := Gates.acquired_undisturbed hgates₁
    obtain ⟨gates₂, hrun, hsame', hcount⟩ := ih gates₁ fun m hm => by
      rw [hsame.accepting]
      exact haccepting m (List.mem_cons_of_mem _ hm)
    refine ⟨gates₂, ?_, ⟨⟨hsame'.selector.trans hsame.selector, hsame'.generation.trans hsame.generation⟩,
      hsame'.active.trans hsame.active, hsame'.accepting.trans hsame.accepting,
      fun m => (hsame'.retired m).trans (hsame.retired m)⟩, fun m => ?_⟩
    · rw [acquireAll, hgates₁]
      simp only [hrun]
    · rw [hcount m, (Gates.tryAcquire_eq hgates₁).2, Gates.inflight_withExecution, List.count_cons]
      by_cases hm : m = g
      · subst hm
        simp only [if_true, beq_self_eq_true]
        omega
      · have hne : ¬ (g == m) = true := by simpa using Ne.symm hm
        rw [if_neg hm, if_neg hne]
        omega

/-! ## Calls of `snapshot` that fail -/

/-- The invocation was handed to `invoke`. -/
def Pc.handed : Pc → Bool
  | .invoking | .ending | .ended => true
  | _ => false

/-- An attempt that stands here holds no lease. -/
def Pc.unleased : Pc → Bool
  | .lock | .find .. | .middleware .. | .notFound | .generationChanged => true
  | _ => false

/-- Every lease of an invocation that was not handed over is one of the attempt that is being made. -/
structure Early (s : State) : Prop extends Bound s where
  pc : s.pc.handed = false
  unleased : s.pc.unleased = true → s.leases = []

section Fails

variable {s s' : State} {l : Label}

theorem Early.frames (h : Early s) : s.frames = [] := by
  have hcovered := h.covered
  have hpc := h.pc
  unfold State.Covered at hcovered
  split at hcovered
  · exact hcovered.2
  · rename_i heq
    rw [heq] at hpc
    cases hpc
  · rename_i heq
    rw [heq] at hpc
    cases hpc
  · rename_i heq
    rw [heq] at hpc
    cases hpc
  · exact hcovered

theorem unleased_snapshot (h : Early s) (hs : stepSnapshot s = some s') (hpc' : s'.pc.unleased = true) :
    s'.leases = [] := by
  have hold := h.unleased
  have hearly := h.pc
  unfold stepSnapshot at hs
  split at hs
  case h_1 hpc | h_2 hpc | h_3 hpc | h_4 hpc =>
    cases hs
    exact hold (hpc ▸ rfl)
  case h_5 =>
    cases hs
    cases hpc'
  case h_6 hpc =>
    split_ifs at hs
    · cases hs
      exact hold (hpc ▸ rfl)
    · cases hs
      exact hold (hpc ▸ rfl)
  case h_7 =>
    cases hs
    cases hpc'
  case h_8 =>
    split at hs
    · cases hs
      cases hpc'
    · cases hs
      cases hpc'
  case h_9 hpc =>
    split at hs
    · obtain ⟨gates, -, rfl⟩ := Option.map_eq_some_iff.mp hs
      simp only [hpc] at hpc'
      cases hpc'
    · rename_i hleases
      split_ifs at hs
      · cases hs
        exact hleases
      · cases hs
        exact hleases
  case h_10 hpc =>
    rw [hpc] at hearly
    cases hearly
  all_goals cases hs

theorem handed_step (h : s.pc.handed = true) (hs : step s l = some s') : s'.pc.handed = true := by
  have hchange : ∀ r, s.change r = some s' → s'.pc.handed = true := by
    intro r hr
    unfold State.change at hr
    split_ifs at hr
    cases hr
    exact h
  have hcall : ∀ (t : State) index task, t.callAt index task = some s' → t.pc = s.pc → s'.pc.handed = true := by
    intro t index task hr ht
    obtain ⟨gate, -, rfl⟩ := Option.map_eq_some_iff.mp hr
    exact ht ▸ h
  cases l with
  | registerHandler | registerMiddleware | removeHandler | removeMiddleware | commitRevision =>
    exact hchange _ hs
  | gateOp g op =>
    cases hs
    exact h
  | gate n =>
    simp only [step] at hs
    split at hs
    · obtain ⟨p, -, rfl⟩ := Option.map_eq_some_iff.mp hs
      exact h
    · cases hs
  | lease g =>
    obtain ⟨gates, -, rfl⟩ := Option.map_eq_some_iff.mp hs
    exact h
  | unlease g =>
    simp only [step] at hs
    split_ifs at hs
    obtain ⟨gates, -, rfl⟩ := Option.map_eq_some_iff.mp hs
    exact h
  | snapshot =>
    simp only [step] at hs
    unfold stepSnapshot at hs
    split at hs
    case h_10 hpc =>
      split at hs
      · obtain ⟨gates, -, rfl⟩ := Option.map_eq_some_iff.mp hs
        exact h
      · cases hs
        rfl
    case h_11 | h_12 | h_13 | h_14 => cases hs
    all_goals
      rename_i hpc
      rw [hpc] at h
      cases h
  | chain c =>
    cases c with
    | begin =>
      simp only [step, stepChain] at hs
      split_ifs at hs
      exact hcall _ _ _ hs rfl
    | next n task =>
      simp only [step, stepChain] at hs
      split at hs
      · split_ifs at hs
        exact hcall _ _ _ hs rfl
      · cases hs
    | finish n =>
      simp only [step, stepChain] at hs
      split at hs
      · split_ifs at hs
        cases hs
        exact h
      · cases hs
    | stop =>
      simp only [step, stepChain] at hs
      split_ifs at hs
      cases hs
      rfl

theorem chain_not_early (h : Early s) (c : ChainStep) : stepChain s c = none := by
  have hframes := h.frames
  have hpc : s.pc ≠ .invoking := by
    intro hpc
    have hearly := h.pc
    rw [hpc] at hearly
    cases hearly
  cases c with
  | begin | stop => simp [stepChain, hpc]
  | next | finish => simp [stepChain, hframes]

theorem early_step (h : Early s) (hs : step s l = some s') : s'.pc.handed = true ∨ Early s' := by
  cases hpc' : s'.pc.handed with
  | true => exact .inl rfl
  | false =>
  right
  have hattached : Attached s l := by
    cases l with
    | chain c =>
      rw [step, chain_not_early h c] at hs
      cases hs
    | _ => trivial
  refine ⟨bound_step h.toBound hattached hs, hpc', ?_⟩
  have hkeeps : s'.pc = s.pc → s'.leases = s.leases → s'.pc.unleased = true → s'.leases = [] :=
    fun hpc hleases hu => hleases.trans (h.unleased (hpc ▸ hu))
  cases l with
  | chain c =>
    rw [step, chain_not_early h c] at hs
    cases hs
  | snapshot => exact unleased_snapshot h hs
  | registerHandler | registerMiddleware | removeHandler | removeMiddleware | commitRevision =>
    simp only [step, State.change] at hs
    split_ifs at hs
    cases hs
    exact hkeeps rfl rfl
  | gateOp g op =>
    cases hs
    exact hkeeps rfl rfl
  | gate n =>
    simp only [step] at hs
    split at hs
    · obtain ⟨p, -, rfl⟩ := Option.map_eq_some_iff.mp hs
      exact hkeeps rfl rfl
    · cases hs
  | lease g =>
    obtain ⟨gates, -, rfl⟩ := Option.map_eq_some_iff.mp hs
    exact hkeeps rfl rfl
  | unlease g =>
    simp only [step] at hs
    split_ifs at hs
    obtain ⟨gates, -, rfl⟩ := Option.map_eq_some_iff.mp hs
    exact hkeeps rfl rfl

theorem early_fresh (h : Fresh s) : Early s where
  toBound := bound_fresh h
  pc := by
    rw [h.pc]
    rfl
  unleased := fun _ => h.leases

theorem no_lease_of_failed {s₀ : State} (hfresh : Fresh s₀) (h : Reach step anyStep s₀ s)
    (hfailed : s.pc = .notFound ∨ s.pc = .generationChanged) :
    s.leases = [] ∧ ∀ g, s.gates.inflight g = s.foreign g := by
  have hinv : s.pc.handed = true ∨ Early s :=
    h.invariant (I := fun t => t.pc.handed = true ∨ Early t) (.inr (early_fresh hfresh))
      fun _ _ _ hold _ hs => hold.elim (fun ht => .inl (handed_step ht hs)) fun ht => early_step ht hs
  rcases hinv with hhanded | hearly
  · rcases hfailed with hpc | hpc <;> (rw [hpc] at hhanded; cases hhanded)
  · have hleases : s.leases = [] := by
      refine hearly.unleased ?_
      rcases hfailed with hpc | hpc <;> rw [hpc] <;> rfl
    refine ⟨hleases, fun g => ?_⟩
    rw [hearly.counted g, hleases]
    rfl

end Fails

/-! ## An attempt, step by step -/

section Alone

/-- The steps of `snapshot` alone. -/
def Alone (_ : State) (l : Label) : Prop := l = .snapshot

theorem Reach.alone {s t u : State} (h : Reach step Alone s t) (hs : stepSnapshot t = some u) :
    Reach step Alone s u := h.tail (a := .snapshot) rfl hs

variable (s : State)

theorem findIn_alone (scope : ScopeId) (rest : List ScopeId) (entries : List HandlerEntry) :
    ∀ cache, Reach step Alone { s with pc := .find (scope :: rest) entries, cache := cache }
      { s with
        pc := match (findIn s.gates s.key scope cache entries).2 with
          | some handler => .middleware handler s.registry.middleware []
          | none => .find rest s.registry.handlers
        cache := (findIn s.gates s.key scope cache entries).1 } := by
  induction entries with
  | nil => exact fun cache => Reach.alone .refl rfl
  | cons entry entries ih =>
    intro cache
    have hfirst := Reach.alone (s := { s with pc := .find (scope :: rest) (entry :: entries), cache := cache })
      .refl rfl
    rw [findIn]
    by_cases hfound : (cache.visible s.gates entry.gate).2 = true ∧ entry.scope = scope ∧ entry.key = s.key
    · simp only [if_pos hfound] at hfirst ⊢
      exact hfirst
    · simp only [if_neg hfound] at hfirst ⊢
      exact hfirst.trans (ih _)

theorem findHandler_alone (scopes : List ScopeId) :
    ∀ cache, ∃ t, Reach step Alone { s with pc := .find scopes s.registry.handlers, cache := cache } t ∧
      t = { s with
        pc := match (findHandler s.gates s.key s.registry.handlers cache scopes).2 with
          | some handler => .middleware handler s.registry.middleware []
          | none => .notFound
        cache := (findHandler s.gates s.key s.registry.handlers cache scopes).1 } := by
  induction scopes with
  | nil => exact fun cache => ⟨_, Reach.alone .refl rfl, rfl⟩
  | cons scope scopes ih =>
    intro cache
    have hfirst := findIn_alone s scope scopes s.registry.handlers cache
    rw [findHandler]
    generalize findIn s.gates s.key scope cache s.registry.handlers = p at hfirst
    obtain ⟨cache', answer⟩ := p
    cases answer with
    | none =>
      obtain ⟨t, ht, heq⟩ := ih cache'
      exact ⟨t, hfirst.trans ht, heq⟩
    | some handler => exact ⟨_, hfirst, rfl⟩

theorem collect_alone (handler : HandlerEntry) (entries : List MiddlewareEntry) : ∀ cache kept,
    ∃ cache', Reach step Alone { s with pc := .middleware handler entries kept, cache := cache }
      { s with
        pc := .middleware handler [] (kept ++ collect s.gates s.key s.scopes cache entries)
        cache := cache' } := by
  induction entries with
  | nil =>
    intro cache kept
    rw [collect, List.append_nil]
    exact ⟨cache, .refl⟩
  | cons entry entries ih =>
    intro cache kept
    by_cases hscope : entry.scope ∈ s.scopes
    · have hfirst := Reach.alone (s := { s with pc := .middleware handler (entry :: entries) kept, cache := cache })
        .refl (if_pos hscope)
      rw [collect, if_pos hscope]
      by_cases hjoins : (cache.visible s.gates entry.gate).2 = true ∧ entry.key = s.key
      · simp only [if_pos hjoins] at hfirst ⊢
        obtain ⟨cache', hrest⟩ := ih (cache.visible s.gates entry.gate).1
          (kept ++ [(s.scopes.idxOf entry.scope, entry)])
        rw [List.append_assoc] at hrest
        exact ⟨cache', hfirst.trans hrest⟩
      · simp only [if_neg hjoins] at hfirst ⊢
        obtain ⟨cache', hrest⟩ := ih (cache.visible s.gates entry.gate).1 kept
        exact ⟨cache', hfirst.trans hrest⟩
    · have hfirst := Reach.alone (s := { s with pc := .middleware handler (entry :: entries) kept, cache := cache })
        .refl (if_neg hscope)
      rw [collect, if_neg hscope]
      obtain ⟨cache', hrest⟩ := ih cache kept
      exact ⟨cache', hfirst.trans hrest⟩

/-- An attempt that nobody interrupts goes on to lease what `select` says. -/
theorem attempt_alone :
    ∃ t, Reach step Alone s.attempt t ∧ t.gates = s.gates ∧ t.leases = s.leases ∧
      match select s.gates s.key s.registry s.scopes with
      | none => t.pc = .notFound
      | some sel => ∃ chain, t.pc = .acquire chain sel.gates := by
  obtain ⟨t, ht, heq⟩ := findHandler_alone s s.scopes.reverse []
  unfold select
  generalize findHandler s.gates s.key s.registry.handlers [] s.scopes.reverse = p at heq
  obtain ⟨cache, answer⟩ := p
  subst heq
  cases answer with
  | none => exact ⟨_, ht, rfl, rfl, rfl⟩
  | some handler =>
    obtain ⟨cache', hcollect⟩ := collect_alone s handler s.registry.middleware cache []
    refine ⟨_, Reach.alone (ht.trans hcollect) rfl, rfl, rfl, ?_⟩
    simp only [State.admitting, Selection.gates, List.nil_append, List.map_map]
    exact ⟨_, rfl⟩

end Alone

/-! ## The specification is met -/

theorem snapshot_of_none {r : RegistryState} {scopes : List ScopeId} {key : Nat}
    (h : select gates key r scopes = none) :
    snapshot r gates scopes key = (gates, .error (.InvocationHandlerNotFound key)) := by
  rw [snapshot, attempts, h]

theorem snapshot_of_some {r : RegistryState} {scopes : List ScopeId} {key : Nat} {sel : Selection}
    (h : select gates key r scopes = some sel) (haccepting : ∀ g ∈ sel.gates, gates.accepting g = true) :
    ∃ gates', snapshot r gates scopes key = (gates', .ok (sel, sel.gates)) ∧
      Gates.Undisturbed gates gates' ∧ ∀ g, gates'.inflight g = gates.inflight g + sel.gates.count g := by
  obtain ⟨gates', hacquire, hsame, hcount⟩ := acquireAll_ok sel.gates gates haccepting
  refine ⟨gates', ?_, hsame, hcount⟩
  rw [snapshot, attempts, h]
  simp only [hacquire]

theorem Selects.visible {r : RegistryState} {scopes : List ScopeId} {key : Nat} {sel : Selection}
    (h : Selects r gates scopes key sel) {g : Nat} (hg : g ∈ sel.gates) :
    gates.active (gates.selector g) = gates.generation g := by
  rcases List.mem_cons.mp hg with rfl | hg
  · exact h.handler.2.1
  · obtain ⟨entry, hentry, rfl⟩ := List.mem_map.mp hg
    exact ((h.middleware entry).mp hentry).2.1

/-- **A snapshot selects by the specification**: undisturbed, it fails exactly when no Scope of the path
has a visible handler, and otherwise holds one lease for each selected entry; disturbed or not, a failed
one holds none. -/
theorem snapshot_by_specification {t₀ t : GateCalls} (hstaged : t₀.Staged)
    (hgates : Reach GateCalls.step anyStep t₀ t) {r : Registry} (hr : Reach Registry.step anyStep .empty r)
    (hfew : r.nextMiddleware < 2 ^ 64) {scopes : List ScopeId} (hpath : scopes.Nodup) (key : Nat) :
    ((∃ gates', snapshot r.state t.gates scopes key = (gates', .error (.InvocationHandlerNotFound key))) ↔
      ∀ entry ∈ r.state.handlers, ¬ entry.Offers t.gates scopes key) ∧
    (∀ gates' e, snapshot r.state t.gates scopes key = (gates', .error e) →
      e = .InvocationHandlerNotFound key ∧ gates' = t.gates) ∧
    (∀ gates' sel leases, snapshot r.state t.gates scopes key = (gates', .ok (sel, leases)) →
      Selects r.state t.gates scopes key sel ∧ leases = sel.gates ∧ Gates.Undisturbed t.gates gates' ∧
        ∀ g, gates'.inflight g = t.gates.inflight g + leases.count g) ∧
    ∀ s₀ s : State, Fresh s₀ → Reach step anyStep s₀ s → s.pc = .notFound ∨ s.pc = .generationChanged →
      s.leases = [] ∧ ∀ g, s.gates.inflight g = s.foreign g := by
  rw [← and_assoc, ← and_assoc]
  refine ⟨?_, fun s₀ s hfresh h hfailed => no_lease_of_failed hfresh h hfailed⟩
  rcases select_spec t.gates key (filed_reach hr) hfew hpath with
    ⟨hselect, hnone⟩ | ⟨sel, hselect, hspec⟩
  · have hsnapshot := snapshot_of_none hselect
    rw [hsnapshot]
    refine ⟨⟨⟨fun _ => hnone, fun _ => ⟨_, rfl⟩⟩, fun gates' e he => ?_⟩, fun _ _ _ he => ?_⟩
    · cases he
      exact ⟨rfl, rfl⟩
    · cases he
  · have haccepting : ∀ g ∈ sel.gates, t.gates.accepting g = true := fun g hg =>
      GateCalls.accepting_of_visible hstaged hgates (hspec.visible hg)
    obtain ⟨gates', hsnapshot, hsame, hcount⟩ := snapshot_of_some hselect haccepting
    rw [hsnapshot]
    refine ⟨⟨⟨fun ⟨_, he⟩ => ?_, fun hnone => ?_⟩, fun _ _ he => ?_⟩, fun gates'' sel' leases he => ?_⟩
    · cases he
    · exact absurd hspec.handler.2 (hnone _ hspec.handler.1)
    · cases he
    · cases he
      exact ⟨hspec, rfl, hsame, hcount⟩

/-- Gates of plugins that have nothing to do with each other. -/
def unrelated : GateCalls := ⟨⟨fun _ => .NONE, fun g => g, fun g => .staged (g + 1)⟩, []⟩

theorem unrelated_staged : unrelated.Staged where
  calls := rfl
  active := fun _ => rfl
  named := fun g => Nat.succ_ne_zero g
  apart := fun _ _ h _ => h
  accepting := fun _ => rfl

/-- Gates `0` to `3` are published, and gate `4` is not. -/
def publishing : List GateLabel :=
  [.call 0 .publish, .call 1 .publish, .call 2 .publish, .call 3 .publish, .atomic 0, .atomic 0, .atomic 1,
    .atomic 1, .atomic 2, .atomic 2, .atomic 3, .atomic 3]

/-- A handler in the root and one in a Scope below it; middleware below the root comes first. -/
def registering : List RegistryLabel :=
  [.registerHandler 0 0 7 0, .registerHandler 0 1 7 1, .registerMiddleware 0 1 7 2, .registerMiddleware 0 0 7 3,
    .registerMiddleware 2 0 7 4]

theorem snapshot_by_specification_nested :
    ∃ t r gates sel, run GateCalls.step unrelated publishing = some t ∧
      run Registry.step .empty registering = some r ∧
      snapshot r.state t.gates [0, 1] 7 = (gates, .ok (sel, [1, 3, 2])) ∧
      Selects r.state t.gates [0, 1] 7 sel ∧ ∀ g, gates.inflight g = t.gates.inflight g + [1, 3, 2].count g := by
  obtain ⟨t, ht⟩ : ∃ t, run GateCalls.step unrelated publishing = some t := ⟨_, rfl⟩
  obtain ⟨r, hr⟩ : ∃ r, run Registry.step .empty registering = some r := ⟨_, rfl⟩
  have hspec := snapshot_by_specification unrelated_staged (reach_of_run ht) (reach_of_run hr)
    (by cases hr; decide) (by decide : ([0, 1] : List ScopeId).Nodup) 7
  have hsnapshot : ∃ gates sel, snapshot r.state t.gates [0, 1] 7 = (gates, .ok (sel, [1, 3, 2])) := by
    cases ht
    cases hr
    exact ⟨_, _, rfl⟩
  obtain ⟨gates, sel, hsnapshot⟩ := hsnapshot
  obtain ⟨hsel, -, -, hcount⟩ := hspec.2.2.1 gates sel _ hsnapshot
  exact ⟨t, r, gates, sel, ht, hr, hsnapshot, hsel, hcount⟩

end Cordis.Invocation
