import Cordis.Library.CycleCheck
import Cordis.Runtime.Dependency

/-!
# Cycle validation and provider relocation

`validate_cycles` is the depth-first search of the library, with the two sets and the path carried along,
so it ends and fails exactly on a directed cycle. `move_providers` changes the lists of one Fiber only,
and its checks are the conditions under which the move can be taken back.
-/

namespace Cordis

/-! ## Cycle validation -/

namespace EdgeMap

variable {edges : EdgeMap}

theorem mem_keys_of_target {a b : FiberId} (h : b ∈ edges.targets a) : a ∈ edges.keys := by
  unfold targets at h
  cases hlookup : edges.lookup a with
  | none => simp [hlookup] at h
  | some next =>
    rw [← AList.mem_keys, ← AList.lookup_isSome, hlookup]
    rfl

theorem keys_subset_nodes : edges.keys ⊆ edges.nodes := List.subset_append_left ..

theorem targets_subset_nodes (a b : FiberId) (h : b ∈ edges.targets a) : b ∈ edges.nodes :=
  List.mem_append_right _ (List.mem_flatMap.mpr ⟨a, mem_keys_of_target h, h⟩)

/-- How the search answers, in the words of the library: `path` leads to the node, innermost first. -/
def answer (path : List FiberId) : Except (List FiberId) (List FiberId) → Except CordisError CycleSearch
  | .ok visited => .ok ⟨path, visited, path.reverse⟩
  | .error cycle => .error (.DependencyCycle cycle.reverse)

theorem visitEach_eq (path : List FiberId) {f : List FiberId → FiberId → Except (List FiberId) (List FiberId)}
    (body : CycleSearch → FiberId → Option (Except CordisError CycleSearch)) (targets : List FiberId)
    (hbody : ∀ target ∈ targets, ∀ visited,
      body ⟨path, visited, path.reverse⟩ target = some (answer path (f visited target))) :
    ∀ visited, visitEach body targets ⟨path, visited, path.reverse⟩ =
      some (answer path (targets.foldlM f visited)) := by
  induction targets with
  | nil => exact fun _ => rfl
  | cons target rest ih =>
    intro visited
    rw [visitEach, hbody target List.mem_cons_self, List.foldlM_cons]
    cases hone : f visited target with
    | error cycle => rfl
    | ok visited' => exact ih (fun t ht => hbody t (List.mem_cons_of_mem _ ht)) visited'

/-- The search below a path without repetitions ends, and answers as the library does. -/
theorem visit_eq : ∀ (depth : Nat) (path visited : List FiberId) (node : FiberId), path.Nodup →
    path ⊆ edges.nodes → node ∈ edges.nodes → edges.nodes.length < depth + path.length →
    edges.visit depth ⟨path, visited, path.reverse⟩ node =
      some (answer path (CycleCheck.visit edges.targets depth path visited node)) := by
  intro depth
  induction depth with
  | zero =>
    intro path visited node hnodup hsub _ hdepth
    have := (hnodup.subperm hsub).length_le
    omega
  | succ depth ih =>
    intro path visited node hnodup hsub hnode hdepth
    rw [visit, CycleCheck.visit]
    split_ifs with hpath hseen
    · simp [answer]
    · rfl
    · have hloop := visitEach_eq (node :: path) (edges.visit depth) (targets edges node)
        (fun target htarget visited => by
          have hmem := targets_subset_nodes node target htarget
          exact ih (node :: path) visited target (List.nodup_cons.mpr ⟨hpath, hnodup⟩)
            (List.cons_subset.mpr ⟨hnode, hsub⟩) hmem (by rw [List.length_cons]; omega))
        (node :: visited)
      rw [List.reverse_cons] at hloop
      rw [hloop]
      cases (edges.targets node).foldlM
        (fun seen target => CycleCheck.visit edges.targets depth (node :: path) seen target)
        (node :: visited) with
      | error cycle => rfl
      | ok visited' => simp [answer]

theorem validateCycles_eq {depth : Nat} (hdepth : edges.nodes.length < depth) :
    edges.validateCycles depth =
      some ((answer [] (CycleCheck.check edges.targets depth edges.keys)).map fun _ => ()) := by
  have hloop := visitEach_eq [] (f := CycleCheck.visit edges.targets depth [])
    (fun s node => edges.visit depth { s with path := [] } node) edges.keys
    (fun node hnode visited => visit_eq depth [] visited node List.nodup_nil (List.nil_subset _)
      (keys_subset_nodes hnode) (by simpa using hdepth)) []
  unfold validateCycles
  rw [List.reverse_nil] at hloop
  rw [hloop]
  rfl

theorem visitEach_more {body body' : CycleSearch → FiberId → Option (Except CordisError CycleSearch)}
    (hbody : ∀ s node r, body s node = some r → body' s node = some r) (targets : List FiberId) :
    ∀ s r, visitEach body targets s = some r → visitEach body' targets s = some r := by
  induction targets with
  | nil => exact fun s r h => h
  | cons target rest ih =>
    intro s r h
    rw [visitEach] at h ⊢
    cases hone : body s target with
    | none => simp [hone] at h
    | some q =>
      rw [hone] at h
      rw [hbody s target q hone]
      cases q with
      | error e => exact h
      | ok s' => exact ih s' r h

theorem visit_more (depth : Nat) : ∀ s node r, edges.visit depth s node = some r →
    edges.visit (depth + 1) s node = some r := by
  induction depth with
  | zero => exact fun s node r h => by cases h
  | succ depth ih =>
    intro s node r h
    rw [visit] at h ⊢
    split_ifs at h ⊢ with hpath hseen
    · exact h
    · exact h
    · cases hloop : visitEach (fun s target => edges.visit depth s target) (targets edges node)
          ⟨node :: s.visiting, node :: s.visited, s.path ++ [node]⟩ with
      | none => simp [hloop] at h
      | some q =>
        rw [hloop] at h
        rw [visitEach_more ih _ _ _ hloop]
        exact h

theorem validateCycles_more {depth more : Nat} {r : Outcome} (hle : depth ≤ more)
    (h : edges.validateCycles depth = some r) : edges.validateCycles more = some r := by
  induction hle with
  | refl => exact h
  | step _ ih =>
    unfold validateCycles at ih ⊢
    obtain ⟨q, hq, rfl⟩ := Option.map_eq_some_iff.mp ih
    rw [visitEach_more (fun s node r hr => visit_more _ _ node r hr) _ _ _ hq]
    rfl

theorem mem_keys_of_cycle {node : FiberId}
    (h : Relation.TransGen (fun a b => b ∈ edges.targets a) node node) : node ∈ edges.keys := by
  obtain ⟨_, htarget, -⟩ := Relation.TransGen.head'_iff.mp h
  exact mem_keys_of_target htarget

theorem check_iff {depth : Nat} (hdepth : edges.nodes.length < depth) :
    (∃ visited, CycleCheck.check edges.targets depth edges.keys = .ok visited) ↔ ¬ edges.Cyclic := by
  constructor
  · rintro ⟨visited, hok⟩ ⟨node, hcycle⟩
    exact CycleCheck.acyclic_of_check hok node (mem_keys_of_cycle hcycle) hcycle
  · intro hacyclic
    exact CycleCheck.check_ok keys_subset_nodes (fun a _ b hb => targets_subset_nodes a b hb)
      (fun node hcycle => hacyclic ⟨node, hcycle⟩) hdepth

/-- `validate_cycles` ends, and fails exactly when the edges have a directed cycle. -/
theorem validate_cycles_exact (edges : EdgeMap) :
    ∃ r, (∀ depth, edges.nodes.length < depth → edges.validateCycles depth = some r) ∧
      (r = .ok () ∨ ∃ path, r = .error (.DependencyCycle path)) ∧
      ((∃ path, r = .error (.DependencyCycle path)) ↔ edges.Cyclic) := by
  have hcheck := check_iff (Nat.lt_succ_self edges.nodes.length)
  have hrun := validateCycles_eq (Nat.lt_succ_self edges.nodes.length)
  have hmore : ∀ {r}, edges.validateCycles (edges.nodes.length + 1) = some r →
      ∀ depth, edges.nodes.length < depth → edges.validateCycles depth = some r :=
    fun h depth hdepth => validateCycles_more hdepth h
  cases hanswer : CycleCheck.check edges.targets (edges.nodes.length + 1) edges.keys with
  | ok visited =>
    rw [hanswer] at hrun hcheck
    refine ⟨.ok (), hmore hrun, .inl rfl, ?_, fun hcycle => ?_⟩
    · rintro ⟨path, hpath⟩
      cases hpath
    · exact absurd hcycle (hcheck.mp ⟨visited, rfl⟩)
  | error cycle =>
    rw [hanswer] at hrun hcheck
    refine ⟨.error (.DependencyCycle cycle.reverse), hmore hrun, .inr ⟨_, rfl⟩, fun _ => ?_,
      fun _ => ⟨_, rfl⟩⟩
    by_contra hacyclic
    obtain ⟨visited, hok⟩ := hcheck.mpr hacyclic
    cases hok

end EdgeMap

/-! ## Provider relocation -/

namespace GraphState

variable {g : GraphState} {source target : ScopeId} {symbol : ServiceSymbol} {fiber : FiberId}

theorem providers_of_lookup {h : GraphState} {s : ScopeId} {k : ServiceSymbol}
    (hl : h.declared.lookup (s, k) = g.declared.lookup (s, k)) : h.providers s k = g.providers s k := by
  unfold providers
  rw [hl]

theorem removeProvider_lookup (s : ScopeId) (k : ServiceSymbol) (hne : (s, k) ≠ (source, symbol)) :
    (g.removeProvider source symbol fiber).declared.lookup (s, k) = g.declared.lookup (s, k) := by
  unfold removeProvider
  split
  · exact AList.lookup_insert_ne hne
  · rfl

theorem removeProvider_providers :
    (g.removeProvider source symbol fiber).providers source symbol =
      (g.providers source symbol).filter (· ≠ fiber) := by
  unfold removeProvider providers
  cases hlookup : g.declared.lookup (source, symbol) with
  | none => simp [hlookup]
  | some ids => simp [AList.lookup_insert]

theorem removeProvider_dependents :
    (g.removeProvider source symbol fiber).dependents = g.dependents := by
  unfold removeProvider
  split <;> rfl

theorem addProvider_lookup (s : ScopeId) (k : ServiceSymbol) (hne : (s, k) ≠ (target, symbol)) :
    (g.addProvider target symbol fiber).declared.lookup (s, k) = g.declared.lookup (s, k) :=
  AList.lookup_insert_ne hne

theorem addProvider_providers :
    (g.addProvider target symbol fiber).providers target symbol =
      g.providers target symbol ++ [fiber] := by
  simp [addProvider, providers, AList.lookup_insert]

theorem moveProvider_lookup (s : ScopeId) (k : ServiceSymbol)
    (hne : k ≠ symbol ∨ s ≠ source ∧ s ≠ target) :
    (g.moveProvider source target fiber symbol).declared.lookup (s, k) = g.declared.lookup (s, k) := by
  have hsource : (s, k) ≠ (source, symbol) := by
    rintro h
    cases h
    tauto
  have htarget : (s, k) ≠ (target, symbol) := by
    rintro h
    cases h
    tauto
  unfold moveProvider
  rw [addProvider_lookup s k htarget, removeProvider_lookup s k hsource]

theorem moveProvider_source (hne : source ≠ target) :
    (g.moveProvider source target fiber symbol).providers source symbol =
      (g.providers source symbol).filter (· ≠ fiber) := by
  unfold moveProvider
  rw [providers_of_lookup (addProvider_lookup source symbol (by simpa using hne)),
    removeProvider_providers]

theorem moveProvider_target (hne : source ≠ target) :
    (g.moveProvider source target fiber symbol).providers target symbol =
      g.providers target symbol ++ [fiber] := by
  unfold moveProvider
  rw [addProvider_providers,
    providers_of_lookup (removeProvider_lookup target symbol (by simpa using hne.symm))]

theorem moveProvider_dependents :
    (g.moveProvider source target fiber symbol).dependents = g.dependents :=
  removeProvider_dependents

/-- What the second loop of `move_providers` leaves behind. -/
structure Moved (source target : ScopeId) (symbols : List ServiceSymbol) (fiber : FiberId)
    (g g' : GraphState) : Prop where
  dependents : g'.dependents = g.dependents
  lookup : ∀ s k, k ∉ symbols ∨ s ≠ source ∧ s ≠ target →
    g'.declared.lookup (s, k) = g.declared.lookup (s, k)
  source : ∀ k ∈ symbols, g'.providers source k = (g.providers source k).filter (· ≠ fiber)
  target : ∀ k ∈ symbols, g'.providers target k = g.providers target k ++ [fiber]

theorem moved_foldl (hne : source ≠ target) (symbols : List ServiceSymbol) :
    ∀ g : GraphState, symbols.Nodup → Moved source target symbols fiber g
      (symbols.foldl (fun g symbol => g.moveProvider source target fiber symbol) g) := by
  induction symbols with
  | nil =>
    intro g _
    exact ⟨rfl, fun _ _ _ => rfl, fun _ hk => absurd hk List.not_mem_nil,
      fun _ hk => absurd hk List.not_mem_nil⟩
  | cons symbol rest ih =>
    intro g hnodup
    obtain ⟨hfresh, hrest⟩ := List.nodup_cons.mp hnodup
    have hr := ih (g.moveProvider source target fiber symbol) hrest
    rw [List.foldl_cons]
    refine ⟨hr.dependents.trans moveProvider_dependents, fun s k h => ?_, fun k hk => ?_, fun k hk => ?_⟩
    · have hk : k ≠ symbol ∨ s ≠ source ∧ s ≠ target :=
        h.imp_left fun hmem heq => hmem (heq ▸ List.mem_cons_self)
      rw [hr.lookup s k (h.imp_left fun hmem hk => hmem (List.mem_cons_of_mem _ hk)),
        moveProvider_lookup s k hk]
    · rcases List.mem_cons.mp hk with rfl | hk
      · rw [providers_of_lookup (hr.lookup source k (.inl hfresh)), moveProvider_source hne]
      · have hdiff : k ≠ symbol := fun heq => hfresh (heq ▸ hk)
        rw [hr.source k hk, providers_of_lookup (moveProvider_lookup source k (.inl hdiff))]
    · rcases List.mem_cons.mp hk with rfl | hk
      · rw [providers_of_lookup (hr.lookup target k (.inl hfresh)), moveProvider_target hne]
      · have hdiff : k ≠ symbol := fun heq => hfresh (heq ▸ hk)
        rw [hr.target k hk, providers_of_lookup (moveProvider_lookup target k (.inl hdiff))]

/-- The scan of `attached_elsewhere` misses no Scope. -/
theorem attachedElsewhere_iff :
    g.attachedElsewhere source symbol fiber = true ↔ ∃ s, s ≠ source ∧ fiber ∈ g.providers s symbol := by
  unfold attachedElsewhere providers
  rw [List.any_eq_true]
  constructor
  · rintro ⟨⟨⟨s, k⟩, ids⟩, hmem, h⟩
    obtain ⟨rfl, hs, hfiber⟩ := of_decide_eq_true h
    have hlookup : g.declared.lookup (s, k) = some ids :=
      AList.mem_lookup_iff.mpr hmem
    exact ⟨s, hs, by rw [hlookup]; exact hfiber⟩
  · rintro ⟨s, hs, hfiber⟩
    cases hlookup : g.declared.lookup (s, symbol) with
    | none => simp [hlookup] at hfiber
    | some ids =>
      rw [hlookup] at hfiber
      exact ⟨⟨(s, symbol), ids⟩, AList.mem_lookup_iff.mp hlookup, decide_eq_true ⟨rfl, hs, hfiber⟩⟩

theorem attachedOnce_iff (hne : source ≠ target) :
    g.AttachedOnce source symbol fiber ↔ ¬ ((g.providers source symbol).count fiber ≠ 1 ∨
      fiber ∈ g.providers target symbol ∨ g.attachedElsewhere source symbol fiber = true) := by
  rw [attachedElsewhere_iff]
  constructor
  · rintro h (hcount | hmem | ⟨s, hs, hmem⟩)
    · exact hcount (by simpa using h source)
    · have := h target
      rw [if_neg hne.symm, List.count_eq_zero] at this
      exact this hmem
    · have := h s
      rw [if_neg hs, List.count_eq_zero] at this
      exact this hmem
  · intro h s
    push Not at h
    obtain ⟨hcount, -, helse⟩ := h
    split_ifs with hs
    · rw [hs, hcount]
    · exact List.count_eq_zero.mpr (helse s hs)

theorem nodup_iff_dedup (symbols : List ServiceSymbol) :
    symbols.Nodup ↔ symbols.dedup.length = symbols.length := by
  constructor
  · intro h
    rw [h.dedup]
  · intro h
    rw [← List.dedup_eq_self]
    exact (List.dedup_sublist symbols).eq_of_length h

theorem moveProviders_cases (g : GraphState) (hne : source ≠ target) (symbols : List ServiceSymbol)
    (fiber : FiberId) :
    (∃ e, g.moveProviders source target symbols fiber = (g, .error e)) ∧
        (¬ symbols.Nodup ∨ ∃ k ∈ symbols, ¬ g.AttachedOnce source k fiber) ∨
      (∃ g', g.moveProviders source target symbols fiber = (g', .ok ()) ∧
        Moved source target symbols fiber g g') ∧
        symbols.Nodup ∧ ∀ k ∈ symbols, g.AttachedOnce source k fiber := by
  unfold moveProviders
  split_ifs with hdup hany
  · exact .inl ⟨⟨_, rfl⟩, .inl fun h => hdup ((nodup_iff_dedup symbols).mp h)⟩
  · obtain ⟨k, hk, hbad⟩ := List.any_eq_true.mp hany
    exact .inl ⟨⟨_, rfl⟩, .inr ⟨k, hk, fun h => (attachedOnce_iff hne).mp h (of_decide_eq_true hbad)⟩⟩
  · have hnodup : symbols.Nodup := (nodup_iff_dedup symbols).mpr (not_not.mp hdup)
    refine .inr ⟨⟨_, rfl, moved_foldl hne symbols g hnodup⟩, hnodup, fun k hk => ?_⟩
    rw [attachedOnce_iff hne]
    intro hbad
    exact hany (List.any_eq_true.mpr ⟨k, hk, decide_eq_true hbad⟩)

theorem Moved.attachedOnce {symbols : List ServiceSymbol} {g' : GraphState}
    (h : Moved source target symbols fiber g g') (hne : source ≠ target) {k : ServiceSymbol}
    (hk : k ∈ symbols) (honce : g.AttachedOnce source k fiber) : g'.AttachedOnce target k fiber := by
  intro s
  by_cases hs : s = source
  · subst hs
    rw [h.source k hk, if_neg hne, List.count_eq_zero]
    simp
  by_cases ht : s = target
  · subst ht
    have hzero := honce s
    rw [if_neg hs] at hzero
    rw [h.target k hk, List.count_append, hzero, if_pos rfl]
    simp
  · have hzero := honce s
    rw [if_neg hs] at hzero
    rw [providers_of_lookup (h.lookup s k (.inr ⟨hs, ht⟩)), hzero, if_neg ht]

theorem Moved.others {symbols : List ServiceSymbol} {g' : GraphState}
    (h : Moved source target symbols fiber g g') (s : ScopeId) (k : ServiceSymbol) :
    (g'.providers s k).filter (· ≠ fiber) = (g.providers s k).filter (· ≠ fiber) := by
  by_cases hk : k ∉ symbols
  · rw [providers_of_lookup (h.lookup s k (.inl hk))]
  rw [not_not] at hk
  by_cases hs : s = source
  · rw [hs, h.source k hk, List.filter_filter]
    simp
  by_cases ht : s = target
  · rw [ht, h.target k hk, List.filter_append]
    simp
  · rw [providers_of_lookup (h.lookup s k (.inr ⟨hs, ht⟩))]

theorem perm_moved {ids : List FiberId} (hcount : ids.count fiber = 1) :
    (ids.filter (· ≠ fiber) ++ [fiber]).Perm ids := by
  have hrest : ids.filter (fun x => !decide (x ≠ fiber)) = [fiber] := by
    have heq := List.filter_eq (l := ids) fiber
    rw [hcount] at heq
    simpa using heq
  rw [← hrest]
  exact List.filter_append_perm ..

theorem Moved.back {symbols : List ServiceSymbol} {g' g'' : GraphState}
    (h : Moved source target symbols fiber g g') (hback : Moved target source symbols fiber g' g'')
    (hne : source ≠ target) (honce : ∀ k ∈ symbols, g.AttachedOnce source k fiber) (s : ScopeId)
    (k : ServiceSymbol) : (g''.providers s k).Perm (g.providers s k) := by
  by_cases hk : k ∉ symbols
  · rw [providers_of_lookup (hback.lookup s k (.inl hk)), providers_of_lookup (h.lookup s k (.inl hk))]
  rw [not_not] at hk
  have hcount := honce k hk s
  by_cases hs : s = source
  · rw [if_pos hs] at hcount
    subst hs
    rw [hback.target k hk, h.source k hk]
    -- the one entry of the Fiber moves to the end of the list
    exact perm_moved hcount
  by_cases ht : s = target
  · rw [if_neg hs, List.count_eq_zero] at hcount
    subst ht
    rw [hback.source k hk, h.target k hk, List.filter_append, List.filter_eq_self.mpr]
    · simp
    · intro x hx
      exact decide_eq_true fun heq => hcount (heq ▸ hx)
  · rw [providers_of_lookup (hback.lookup s k (.inr ⟨ht, hs⟩)),
      providers_of_lookup (h.lookup s k (.inr ⟨hs, ht⟩))]

/-- `move_providers` moves all listed symbols or none, and moving them back undoes it. -/
theorem move_providers_invertible (g : GraphState) (source target : ScopeId) (hne : source ≠ target)
    (symbols : List ServiceSymbol) (fiber : FiberId) :
    ((g.moveProviders source target symbols fiber).2 ≠ .ok () ↔
      ¬ symbols.Nodup ∨ ∃ k ∈ symbols, ¬ g.AttachedOnce source k fiber) ∧
    ((g.moveProviders source target symbols fiber).2 ≠ .ok () →
      (g.moveProviders source target symbols fiber).1 = g) ∧
    ∀ g', g.moveProviders source target symbols fiber = (g', .ok ()) →
      (∀ k ∈ symbols, g'.AttachedOnce target k fiber) ∧
      (∀ s k, (g'.providers s k).filter (· ≠ fiber) = (g.providers s k).filter (· ≠ fiber)) ∧
      (∀ s k, k ∉ symbols → g'.declared.lookup (s, k) = g.declared.lookup (s, k)) ∧
      g'.dependents = g.dependents ∧
      ∃ g'', g'.moveProviders target source symbols fiber = (g'', .ok ()) ∧
        (∀ s k, (g''.providers s k).Perm (g.providers s k)) ∧ g''.dependents = g.dependents := by
  rcases moveProviders_cases g hne symbols fiber with
    ⟨⟨e, hrun⟩, hbad⟩ | ⟨⟨g₁, hrun, hmoved⟩, hnodup, honce⟩
  · rw [hrun]
    refine ⟨⟨fun _ => hbad, fun _ => nofun⟩, fun _ => rfl, fun g' h => ?_⟩
    cases h
  · rw [hrun]
    refine ⟨⟨fun h => absurd rfl h, ?_⟩, fun h => absurd rfl h, fun g' h => ?_⟩
    · rintro (hdup | ⟨k, hk, hbad⟩)
      · exact absurd hnodup hdup
      · exact absurd (honce k hk) hbad
    cases h
    have hthere : ∀ k ∈ symbols, g₁.AttachedOnce target k fiber :=
      fun k hk => hmoved.attachedOnce hne hk (honce k hk)
    refine ⟨hthere, hmoved.others, fun s k hk => hmoved.lookup s k (.inl hk), hmoved.dependents, ?_⟩
    rcases moveProviders_cases g₁ hne.symm symbols fiber with
      ⟨-, hdup | ⟨k, hk, hbad⟩⟩ | ⟨⟨g₂, hback, hmoved'⟩, -, -⟩
    · exact absurd hnodup hdup
    · exact absurd (hthere k hk) hbad
    · exact ⟨g₂, hback, hmoved.back hmoved' hne honce, hmoved'.dependents.trans hmoved.dependents⟩

/-- One symbol, with a provider of its own in the target: there and back. -/
theorem move_providers_invertible_shared :
    let g := ((empty.addProvider 1 7 4).addProvider 2 7 5).addProvider 1 7 6
    (g.moveProviders 1 2 [7] 4).1.providers 2 7 = [5, 4] ∧
      ∃ g'', (g.moveProviders 1 2 [7] 4).1.moveProviders 2 1 [7] 4 = (g'', .ok ()) ∧
        ∀ s k, (g''.providers s k).Perm (g.providers s k) := by
  intro g
  refine ⟨by decide, ?_⟩
  obtain ⟨-, -, hok⟩ := move_providers_invertible g 1 2 (by decide) [7] 4
  obtain ⟨-, -, -, -, g'', hback, hperm, -⟩ := hok (g.moveProviders 1 2 [7] 4).1 (by rfl)
  exact ⟨g'', hback, hperm⟩

end GraphState

end Cordis
