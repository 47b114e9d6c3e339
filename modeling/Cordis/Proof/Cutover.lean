import Cordis.Runtime.Cutover
import Mathlib.Data.List.Basic

/-!
# The registry operations of the cutover

Each operation of the cutover as a pointwise description of what it leaves, and the two inverses:
moving the providers back and moving the Fiber and its child Scopes back restores every list up to
its order.
-/

namespace Cordis

namespace Runtime

variable {rt rt' : Runtime}

/-! ## Scopes -/

theorem modifyScope_scopes (rt : Runtime) (s : ScopeId) (f : ScopeCell → ScopeCell) (s' : ScopeId) :
    (rt.modifyScope s f).scopes s' =
      (rt.scopes s').map fun c => if s' = s ∧ c.inArena then f c else c := by
  unfold modifyScope scope
  cases hs : rt.scopes s with
  | none =>
    by_cases h : s' = s
    · subst h
      simp [hs]
    · simp [h]
  | some c =>
    by_cases hin : c.inArena <;> by_cases h : s' = s
    · subst h
      simp [Option.filter, hin, hs, setScope]
    · simp [Option.filter, hin, setScope, h]
    · subst h
      simp [Option.filter, hin, hs]
    · simp [Option.filter, hin, h]

/-- The fields that a change of the Scope tree leaves alone. -/
structure ScopesOnly (rt rt' : Runtime) : Prop where
  eq : rt' = { rt with scopes := rt'.scopes }

theorem modifyScope_only (rt : Runtime) (s : ScopeId) (f : ScopeCell → ScopeCell) :
    ScopesOnly rt (rt.modifyScope s f) := by
  unfold modifyScope
  split
  · exact ⟨rfl⟩
  · exact ⟨rfl⟩

theorem ScopesOnly.trans {rt₁ rt₂ rt₃ : Runtime} (h : ScopesOnly rt₁ rt₂)
    (h' : ScopesOnly rt₂ rt₃) : ScopesOnly rt₁ rt₃ := by
  constructor
  rw [h'.eq, h.eq]

theorem adopt_scopes (dest : ScopeId) (children : List ScopeId) (rt : Runtime) (s : ScopeId) :
    (adopt dest children rt).scopes s = (rt.scopes s).map fun c =>
      if s ∈ children ∧ c.inArena then { c with parent := some dest } else c := by
  induction children generalizing rt with
  | nil => simp [adopt]
  | cons child rest ih =>
    change (adopt dest rest _).scopes s = _
    rw [ih, modifyScope_scopes, Option.map_map]
    congr 1
    funext c
    by_cases hs : s = child <;> by_cases hr : s ∈ rest <;> by_cases hin : c.inArena <;>
      simp [hs, hr, hin]

theorem adopt_only (dest : ScopeId) (children : List ScopeId) (rt : Runtime) :
    ScopesOnly rt (adopt dest children rt) := by
  induction children generalizing rt with
  | nil => exact ⟨rfl⟩
  | cons child rest ih => exact (modifyScope_only rt child _).trans (ih _)

/-- The record of Scope `s` after the Fiber and the children moved from `source` to `dest`. -/
def relocated (source dest : ScopeId) (fiber : FiberId) (children : List ScopeId) (s : ScopeId)
    (c : ScopeCell) : ScopeCell :=
  if c.inArena then { c with
    fibers :=
      let fibers := if s = source then c.fibers.filter (· ≠ fiber) else c.fibers
      if s = dest then fibers ++ [fiber] else fibers
    children :=
      let kept := if s = source then c.children.filter (· ∉ children) else c.children
      if s = dest then kept ++ children else kept
    parent := if s ∈ children then some dest else c.parent }
  else c

theorem relocate_scopes (rt : Runtime) (source dest : ScopeId) (fiber : FiberId)
    (children : List ScopeId) (s : ScopeId) :
    (rt.relocate source dest fiber children).scopes s =
      (rt.scopes s).map (relocated source dest fiber children s) := by
  unfold relocate
  rw [adopt_scopes, modifyScope_scopes, modifyScope_scopes, Option.map_map, Option.map_map]
  congr 1
  funext c
  obtain ⟨inArena, parent, kept, fibers⟩ := c
  unfold relocated
  cases inArena with
  | false => simp
  | true =>
    by_cases hs : s = source <;> by_cases hd : s = dest <;> by_cases hc : s ∈ children <;>
      simp_all

theorem relocate_only (rt : Runtime) (source dest : ScopeId) (fiber : FiberId)
    (children : List ScopeId) : ScopesOnly rt (rt.relocate source dest fiber children) :=
  ((modifyScope_only rt source _).trans (modifyScope_only _ dest _)).trans (adopt_only _ _ _)

@[simp] theorem relocated_inArena (source dest : ScopeId) (fiber : FiberId)
    (children : List ScopeId) (s : ScopeId) (c : ScopeCell) :
    (relocated source dest fiber children s c).inArena = c.inArena := by
  unfold relocated
  by_cases h : c.inArena
  · rw [if_pos h]
  · rw [if_neg h]

theorem scope_eq_some {s : ScopeId} {c : ScopeCell} :
    rt.scope s = some c ↔ rt.scopes s = some c ∧ c.inArena = true := by
  simp [scope, Option.filter_eq_some_iff]

theorem relocate_scope (rt : Runtime) (source dest : ScopeId) (fiber : FiberId)
    (children : List ScopeId) (s : ScopeId) :
    (rt.relocate source dest fiber children).scope s =
      (rt.scope s).map (relocated source dest fiber children s) := by
  unfold scope
  rw [relocate_scopes]
  cases rt.scopes s with
  | none => rfl
  | some c => by_cases h : c.inArena <;> simp [Option.filter, h]

/-- What `commit_locked` and `rollback_locked` check: `fiber` is listed once in `source` and nowhere
else, and `children` are listed in `source`, not in `dest`, and hang below `source`. -/
structure Relocatable (rt : Runtime) (source dest : ScopeId) (fiber : FiberId)
    (children : List ScopeId) : Prop where
  leaves : ∃ c, rt.scope source = some c ∧ c.state = .Active ∧ c.fibers.count fiber = 1 ∧
    ∀ child ∈ children, child ∈ c.children
  joins : ∃ c, rt.scope dest = some c ∧ c.state = .Active ∧ fiber ∉ c.fibers ∧
    ∀ child ∈ children, child ∉ c.children
  only : ∀ s < rt.nextScope, s ≠ source → ∀ c, rt.scope s = some c → fiber ∉ c.fibers
  parents : ∀ child ∈ children, ∃ c, rt.scope child = some c ∧ c.parent = some source

theorem listedOnlyIn_iff {s : ScopeId} {fiber : FiberId} :
    rt.listedOnlyIn s fiber = true ↔
      ∀ id < rt.nextScope, id ≠ s → ∀ c, rt.scope id = some c → fiber ∉ c.fibers := by
  simp only [listedOnlyIn, List.all_eq_true, List.mem_range, Option.all_eq_true, decide_eq_true_eq,
    or_iff_not_imp_left]

theorem commitLocked_ok {p : PreparedScopeRevision} (h : rt.commitLocked p = .ok rt') :
    Relocatable rt p.staging p.target p.staged p.children ∧
      (∃ c, rt.scope p.target = some c ∧ c.fibers.count p.old = 1) ∧
      rt' = rt.relocate p.staging p.target p.staged p.children := by
  unfold commitLocked at h
  simp only at h
  split_ifs at h with hvalid
  obtain rfl : rt.relocate p.staging p.target p.staged p.children = rt' := by simpa using h
  simp only [Bool.not_eq_true', Bool.not_eq_false, Bool.and_eq_true, Option.any_eq_true,
    decide_eq_true_eq, List.all_eq_true, listedOnlyIn_iff] at hvalid
  obtain ⟨⟨⟨⟨c, hc, hactive, hone, hin⟩, ⟨d, hd, hactive', hold, hnot, hout⟩⟩, honly⟩,
    hparents⟩ := hvalid
  exact ⟨⟨⟨c, hc, hactive, hone, hin⟩, ⟨d, hd, hactive', hnot, hout⟩, honly, hparents⟩,
    ⟨d, hd, hold⟩, rfl⟩

theorem rollbackLocked_of_relocatable {p : PreparedScopeRevision}
    (h : Relocatable rt p.target p.staging p.staged p.children)
    (hold : ∃ c, rt.scope p.target = some c ∧ c.fibers.count p.old = 1) :
    rt.rollbackLocked p = .ok (rt.relocate p.target p.staging p.staged p.children) := by
  obtain ⟨⟨c, hc, hactive, hone, hin⟩, ⟨d, hd, hactive', hnot, hout⟩, honly, hparents⟩ := h
  obtain ⟨c', hc', hold⟩ := hold
  obtain rfl : c = c' := by simpa [hc] using hc'
  unfold rollbackLocked
  simp only
  rw [if_neg]
  simp only [Bool.not_eq_true', Bool.not_eq_false, Bool.and_eq_true, Option.any_eq_true,
    decide_eq_true_eq, List.all_eq_true, listedOnlyIn_iff]
  exact ⟨⟨⟨⟨c, hc, hactive, hold, hone, hin⟩, ⟨d, hd, hactive', hnot, hout⟩⟩, honly⟩, hparents⟩

theorem Relocatable.ne {source dest : ScopeId} {fiber : FiberId} {children : List ScopeId}
    (h : Relocatable rt source dest fiber children) : source ≠ dest := by
  rintro rfl
  obtain ⟨c, hc, -, hone, -⟩ := h.leaves
  obtain ⟨d, hd, -, hnot, -⟩ := h.joins
  obtain rfl : c = d := by simpa [hc] using hd
  exact hnot (List.count_pos_iff.mp (by omega))

theorem relocatable_back {source dest : ScopeId} {fiber : FiberId} {children : List ScopeId}
    (h : Relocatable rt source dest fiber children)
    (hs : rt'.scopes = (rt.relocate source dest fiber children).scopes)
    (hn : rt'.nextScope = rt.nextScope) : Relocatable rt' dest source fiber children := by
  have hne := h.ne
  have hscope : ∀ s, rt'.scope s = (rt.scope s).map (relocated source dest fiber children s) := by
    intro s
    rw [← relocate_scope]
    unfold scope
    rw [hs]
  obtain ⟨c, hc, hactive, hone, hin⟩ := h.leaves
  obtain ⟨d, hd, hactive', hnot, hout⟩ := h.joins
  have hcin := (scope_eq_some.mp hc).2
  have hdin := (scope_eq_some.mp hd).2
  refine ⟨⟨_, by rw [hscope, hd]; rfl, ?_, ?_, ?_⟩, ⟨_, by rw [hscope, hc]; rfl, ?_, ?_, ?_⟩, ?_, ?_⟩
  · simpa [relocated, hdin] using hactive'
  · simp [relocated, hdin, hne.symm, List.count_eq_zero_of_not_mem hnot]
  · intro child hchild
    simp [relocated, hdin, hchild]
  · simpa [relocated, hcin] using hactive
  · simp [relocated, hcin, hne]
  · intro child hchild
    simp [relocated, hcin, hne, hchild]
  · intro s hlt hsd q hq
    rw [hscope, Option.map_eq_some_iff] at hq
    obtain ⟨q', hq', rfl⟩ := hq
    have hqin := (scope_eq_some.mp hq').2
    by_cases hss : s = source
    · simp [relocated, hqin, hss, hne]
    · simpa [relocated, hqin, hss, hsd] using h.only s (hn ▸ hlt) hss q' hq'
  · intro child hchild
    obtain ⟨q, hq, -⟩ := h.parents child hchild
    exact ⟨_, by rw [hscope, hq]; rfl, by simp [relocated, (scope_eq_some.mp hq).2, hchild]⟩

end Runtime

/-- The same Scope record up to the order of its lists. -/
structure ScopeCell.Same (c c' : ScopeCell) : Prop where
  rest : c' = { c with children := c'.children, fibers := c'.fibers }
  children : c'.children.Perm c.children
  fibers : c'.fibers.Perm c.fibers

theorem ScopeCell.Same.refl (c : ScopeCell) : c.Same c := ⟨rfl, .refl _, .refl _⟩

theorem filter_append_perm_of_count {l : List Nat} {a : Nat} (h : l.count a = 1) :
    (l.filter (· ≠ a) ++ [a]).Perm l := by
  have hone : l.filter (· == a) = [a] := by rw [List.filter_beq, h, List.replicate_one]
  have hperm := List.filter_append_perm (· == a) l
  rw [hone] at hperm
  refine List.perm_append_comm.trans ?_
  convert hperm using 3
  funext x
  by_cases hx : x = a <;> simp [hx]

theorem filter_append_perm_of_subset {l m : List Nat} (hl : l.Nodup) (hm : m.Nodup) (h : m ⊆ l) :
    (l.filter (· ∉ m) ++ m).Perm l := by
  have hin : (l.filter (· ∈ m)).Perm m := by
    refine (List.perm_ext_iff_of_nodup (hl.filter _) hm).mpr fun a => ?_
    simp only [List.mem_filter, decide_eq_true_eq, and_iff_right_iff_imp]
    exact fun ha => h ha
  refine List.perm_append_comm.trans ((hin.symm.append_right _).trans ?_)
  convert List.filter_append_perm (fun a => decide (a ∈ m)) l using 3
  simp

namespace Runtime

variable {rt rt' : Runtime}

theorem relocated_back {source dest : ScopeId} {fiber : FiberId} {children : List ScopeId}
    (h : Relocatable rt source dest fiber children) (hchildren : children.Nodup)
    (hsource : ∀ c, rt.scopes source = some c → c.children.Nodup) {s : ScopeId} {c : ScopeCell}
    (hc : rt.scopes s = some c) :
    c.Same (relocated dest source fiber children s (relocated source dest fiber children s c)) := by
  have hne := h.ne
  by_cases hin : c.inArena
  swap
  · have hout : ∀ a b, relocated a b fiber children s c = c := fun a b => if_neg hin
    rw [hout, hout]
    exact .refl c
  have hscope : rt.scope s = some c := scope_eq_some.mpr ⟨hc, hin⟩
  have hparent : s ∈ children → c.parent = some source := by
    intro hs
    obtain ⟨q, hq, hparent⟩ := h.parents s hs
    obtain rfl : c = q := by simpa [hscope] using hq
    exact hparent
  have hback : relocated dest source fiber children s (relocated source dest fiber children s c) =
      { c with
        fibers := (relocated dest source fiber children s
          (relocated source dest fiber children s c)).fibers
        children := (relocated dest source fiber children s
          (relocated source dest fiber children s c)).children } := by
    by_cases hs : s ∈ children
    · simp [relocated, hin, hs, hparent hs]
    · simp [relocated, hin, hs]
  refine ⟨hback, ?_, ?_⟩
  · by_cases hs : s = source
    · subst hs
      obtain ⟨q, hq, -, -, hsub⟩ := h.leaves
      obtain rfl : c = q := by simpa [hscope] using hq
      have := filter_append_perm_of_subset (hsource c hc) hchildren hsub
      simpa [relocated, hin, hne] using this
    · by_cases hd : s = dest
      · subst hd
        obtain ⟨q, hq, -, -, hout⟩ := h.joins
        obtain rfl : c = q := by simpa [hscope] using hq
        have hkept : c.children.filter (fun x => !decide (x ∈ children)) = c.children :=
          List.filter_eq_self.mpr fun x hx => by
            simpa using fun hx' => hout x hx' hx
        have hnone : children.filter (fun x => !decide (x ∈ children)) = [] :=
          List.filter_eq_nil_iff.mpr fun x hx => by simp [hx]
        simp [relocated, hin, hs, hkept, hnone]
      · simp [relocated, hin, hs, hd]
  · by_cases hs : s = source
    · subst hs
      obtain ⟨q, hq, -, hone, -⟩ := h.leaves
      obtain rfl : c = q := by simpa [hscope] using hq
      simpa [relocated, hin, hne] using filter_append_perm_of_count hone
    · by_cases hd : s = dest
      · subst hd
        obtain ⟨q, hq, -, hnot, -⟩ := h.joins
        obtain rfl : c = q := by simpa [hscope] using hq
        have hkept : c.fibers.filter (fun x => !decide (x = fiber)) = c.fibers :=
          List.filter_eq_self.mpr fun x hx => by
            have : x ≠ fiber := fun h => hnot (h ▸ hx)
            simp [this]
        simp [relocated, hin, hs, hkept]
      · simp [relocated, hin, hs, hd]

/-! ## Providers -/

/-- The declarations after `fiber` moved from `source` to `dest` under `symbols`. -/
def movedProviders (declared : ScopeId → ServiceSymbol → List FiberId) (source dest : ScopeId)
    (symbols : List ServiceSymbol) (fiber : FiberId) (s : ScopeId) (k : ServiceSymbol) :
    List FiberId :=
  if k ∈ symbols then
    if s = source then (declared s k).filter (· ≠ fiber)
    else if s = dest then declared s k ++ [fiber]
    else declared s k
  else declared s k

theorem movedProviders_nil (declared : ScopeId → ServiceSymbol → List FiberId)
    (source dest : ScopeId) (fiber : FiberId) :
    movedProviders declared source dest [] fiber = declared := by
  funext s k
  simp [movedProviders]

theorem foldl_moveProvider {source dest : ScopeId} (hne : source ≠ dest) {fiber : FiberId}
    {symbols : List ServiceSymbol} (hnodup : symbols.Nodup) (rt : Runtime) :
    symbols.foldl (moveProvider source dest fiber) rt =
      { rt with declared := movedProviders rt.declared source dest symbols fiber } := by
  induction symbols generalizing rt with
  | nil => rw [movedProviders_nil, List.foldl_nil]
  | cons symbol rest ih =>
    obtain ⟨hfresh, hrest⟩ := List.nodup_cons.mp hnodup
    rw [List.foldl_cons, ih hrest]
    have hdeclared : movedProviders (moveProvider source dest fiber rt symbol).declared source dest
        rest fiber = movedProviders rt.declared source dest (symbol :: rest) fiber := by
      funext s k
      by_cases hk : k = symbol
      · subst hk
        by_cases hs : s = source <;> by_cases hd : s = dest <;>
          simp_all [movedProviders, moveProvider]
      · simp [movedProviders, moveProvider, hk]
    rw [hdeclared]
    rfl

/-- What `move_providers` checks. -/
structure Movable (rt : Runtime) (source dest : ScopeId) (symbols : List ServiceSymbol)
    (fiber : FiberId) : Prop where
  nodup : symbols.Nodup
  once : ∀ k ∈ symbols, (rt.declared source k).count fiber = 1
  fresh : ∀ k ∈ symbols, fiber ∉ rt.declared dest k
  only : ∀ k ∈ symbols, ∀ s < rt.nextScope, s ≠ source → fiber ∉ rt.declared s k

/-- From a Scope to itself only the empty list moves. -/
theorem Movable.nil_of_eq {source : ScopeId} {symbols : List ServiceSymbol} {fiber : FiberId}
    (h : Movable rt source source symbols fiber) : symbols = [] := by
  refine List.eq_nil_iff_forall_not_mem.mpr fun k hk => ?_
  have hone := h.once k hk
  rw [List.count_eq_zero_of_not_mem (h.fresh k hk)] at hone
  contradiction

theorem moveProviders_ok {source dest : ScopeId} {symbols : List ServiceSymbol} {fiber : FiberId}
    (h : rt.moveProviders source dest symbols fiber = .ok rt') :
    Movable rt source dest symbols fiber ∧
      rt' = { rt with declared := movedProviders rt.declared source dest symbols fiber } := by
  unfold moveProviders at h
  split_ifs at h with hdup hbad
  obtain rfl : symbols.foldl (moveProvider source dest fiber) rt = rt' := by simpa using h
  simp only [List.any_eq_true, decide_eq_true_eq, List.mem_range, not_exists, not_and, not_or,
    not_not] at hbad
  have hm : Movable rt source dest symbols fiber :=
    ⟨hdup, fun k hk => (hbad k hk).1, fun k hk => (hbad k hk).2.1,
      fun k hk s hs hne => (hbad k hk).2.2 s hs hne⟩
  refine ⟨hm, ?_⟩
  by_cases hne : source = dest
  · subst hne
    obtain rfl := hm.nil_of_eq
    rw [movedProviders_nil, List.foldl_nil]
  · exact foldl_moveProvider hne hm.nodup rt

/-- After the move the declarations can move back, and are what they were up to order. -/
theorem moveProviders_back (rt' : Runtime) {source dest : ScopeId} {symbols : List ServiceSymbol}
    {fiber : FiberId} (h : Movable rt source dest symbols fiber)
    (hd : rt'.declared = movedProviders rt.declared source dest symbols fiber)
    (hn : rt'.nextScope = rt.nextScope) :
    ∃ declared, rt'.moveProviders dest source symbols fiber = .ok { rt' with declared := declared } ∧
      ∀ s k, (declared s k).Perm (rt.declared s k) := by
  by_cases hne : source = dest
  · subst hne
    obtain rfl := h.nil_of_eq
    rw [movedProviders_nil] at hd
    exact ⟨rt'.declared, by simp [moveProviders], fun s k => by rw [hd]⟩
  refine ⟨movedProviders rt'.declared dest source symbols fiber, ?_, fun s k => ?_⟩
  · unfold moveProviders
    rw [if_neg (not_not.mpr h.nodup), if_neg, foldl_moveProvider (Ne.symm hne) h.nodup]
    simp only [List.any_eq_true, decide_eq_true_eq, List.mem_range, not_exists, not_and, not_or,
      not_not, hd, hn]
    intro k hk
    refine ⟨?_, ?_, fun s hs hsd => ?_⟩
    · simp [movedProviders, hk, Ne.symm hne, List.count_eq_zero_of_not_mem (h.fresh k hk)]
    · simp [movedProviders, hk]
    · by_cases hss : s = source
      · simp [movedProviders, hk, hss]
      · simpa [movedProviders, hk, hss, hsd] using h.only k hk s hs hss
  · rw [hd]
    by_cases hk : k ∈ symbols
    · by_cases hs : s = source
      · subst hs
        simpa [movedProviders, hk, hne] using filter_append_perm_of_count (h.once k hk)
      · by_cases hsd : s = dest
        · subst hsd
          have hkept : (rt.declared s k).filter (fun x => !decide (x = fiber)) = rt.declared s k :=
            List.filter_eq_self.mpr fun x hx => by
              have : x ≠ fiber := fun heq => h.fresh k hk (heq ▸ hx)
              simp [this]
          simp [movedProviders, hk, hs, hkept]
        · simp [movedProviders, hk, hs, hsd]
    · simp [movedProviders, hk]

/-! ## Services -/

theorem takeServices_fst (source : ScopeId) (symbols : List ServiceSymbol) (rt : Runtime) :
    (takeServices source symbols rt).1 = { rt with services := fun s k =>
      if s = source ∧ k ∈ symbols then none else rt.services s k } := by
  induction symbols generalizing rt with
  | nil => simp [takeServices]
  | cons symbol rest ih =>
    have hrest := ih (rt.takeService source symbol).1
    have hfst : (takeServices source (symbol :: rest) rt).1 =
        (takeServices source rest (rt.takeService source symbol).1).1 := by
      cases hentry : rt.services source symbol <;> simp [takeServices, takeService, hentry]
    rw [hfst, hrest]
    unfold takeService
    congr 1
    funext s k
    by_cases hs : s = source <;> by_cases hk : k = symbol <;> by_cases hr : k ∈ rest <;>
      simp [hs, hk, hr]

theorem foldl_insertService (source target : ScopeId) (symbols : List ServiceSymbol)
    (rt base : Runtime) :
    (takeServices source symbols rt).2.foldl
        (fun rt p => rt.insertService target p.1 p.2) base =
      { base with services := fun s k =>
          if s = target ∧ k ∈ symbols ∧ (rt.services source k).isSome then
            (rt.services source k).map fun e => { e with scope := target }
          else base.services s k } := by
  induction symbols generalizing rt base with
  | nil => simp [takeServices]
  | cons symbol rest ih =>
    have htaken : ∀ k, (rt.takeService source symbol).1.services source k =
        if k = symbol then none else rt.services source k := by
      intro k
      simp [takeService]
    cases hentry : rt.services source symbol with
    | none =>
      have hsnd : (takeServices source (symbol :: rest) rt).2 =
          (takeServices source rest (rt.takeService source symbol).1).2 := by
        simp [takeServices, takeService, hentry]
      rw [hsnd, ih]
      congr 1
      funext s k
      by_cases hk : k = symbol
      · simp [htaken, hk, hentry]
      · simp [htaken, hk]
    | some entry =>
      have hsnd : (takeServices source (symbol :: rest) rt).2 =
          (symbol, entry) :: (takeServices source rest (rt.takeService source symbol).1).2 := by
        simp [takeServices, takeService, hentry]
      rw [hsnd, List.foldl_cons, ih]
      unfold insertService
      congr 1
      funext s k
      by_cases hk : k = symbol <;> by_cases hs : s = target <;> simp [htaken, hk, hs, hentry]

/-- The services after the staged entries moved from `source` to `target`. -/
def movedServices (services : ScopeId → ServiceSymbol → Option ServiceEntry)
    (source target : ScopeId) (symbols : List ServiceSymbol) (s : ScopeId) (k : ServiceSymbol) :
    Option ServiceEntry :=
  if k ∈ symbols ∧ s = target then
    (services source k).map fun e => { e with scope := target }
  else if k ∈ symbols ∧ s = source then none
  else services s k

theorem commitRevisionAndPublish_ok {source target : ScopeId} {symbols : List ServiceSymbol}
    {old staged : FiberId} {stagedCell oldCell : FiberCell}
    (h : rt.commitRevisionAndPublish source target symbols old staged stagedCell oldCell =
      .ok rt') :
    (∀ k ∈ symbols, ∃ e, rt.services source k = some e ∧ e.owner = staged) ∧
      stagedCell.plugin = oldCell.plugin ∧
      rt' = { rt with
        services := movedServices rt.services source target symbols
        selectors := Function.update rt.selectors stagedCell.plugin
          stagedCell.inner.capabilities.generation } := by
  unfold commitRevisionAndPublish cutoverFrom at h
  split_ifs at h with hintact hrefused
  simp only [not_or, not_not] at hrefused
  simp only [takeServices_fst, foldl_insertService, Except.ok.injEq] at h
  simp only [Bool.not_eq_true', Bool.not_eq_false, revisionIntact, List.all_eq_true,
    Bool.and_eq_true, Option.any_eq_true, beq_iff_eq] at hintact
  have hentries : ∀ k ∈ symbols, ∃ e, rt.services source k = some e ∧ e.owner = staged :=
    fun k hk => (hintact k hk).1
  refine ⟨hentries, hrefused.2.1, ?_⟩
  rw [← h]
  congr 1
  funext s k
  by_cases hk : k ∈ symbols
  · obtain ⟨e, he, -⟩ := hentries k hk
    by_cases hs : s = target <;> by_cases hs' : s = source <;> simp [movedServices, hk, he, hs, hs']
  · simp [movedServices, hk]

end Runtime

end Cordis
