import Cordis.Proof.Topology
import Cordis.Runtime.ScopeMap

/-!
# The Scope revision and its inverse

Under its precondition the commit moves the Fiber and the child Scopes and leaves what the rollback
asks for; the rollback then restores every record up to the order of its lists. On a tree the moved
Scopes are listed where their records point, and still lead to the root.
-/

namespace Cordis

open Cordis.Runtime (PreparedScopeRevision)

/-- The record of Scope `id` after `fiber` and `children` moved from `source` to `dest`. -/
def ScopeRecord.relocated (source dest : ScopeId) (fiber : FiberId) (children : List ScopeId)
    (id : ScopeId) (r : ScopeRecord) : ScopeRecord where
  parent := if id ∈ children then some dest else r.parent
  children :=
    let kept := if id = source then r.children.filter (· ∉ children) else r.children
    if id = dest then kept ++ children else kept
  fibers :=
    let kept := if id = source then r.fibers.filter (· ≠ fiber) else r.fibers
    if id = dest then kept ++ [fiber] else kept
  state := r.state
  hidden := r.hidden

namespace ScopeMap

@[ext] theorem ext {m m' : ScopeMap} (h : ∀ id, m.get id = m'.get id) : m = m' := by
  have hkeys : m.keys = m'.keys := by
    ext id
    rw [m.mem_keys, m'.mem_keys, h]
  have hget : m.get = m'.get := funext h
  cases m
  cases m'
  cases hkeys
  cases hget
  rfl

/-! ## The edits -/

theorem getMut_of_some {m : ScopeMap} {id : ScopeId} {r : ScopeRecord} (h : m.get id = some r)
    (change : ScopeRecord → ScopeRecord) :
    ∃ m', m.getMut id change = some m' ∧
      ∀ id', m'.get id' = (m.get id').map fun r => if id' = id then change r else r := by
  unfold getMut
  split
  · rename_i hnone
    rw [h] at hnone
    cases hnone
  · rename_i record hsome
    refine ⟨_, rfl, ?_⟩
    intro id'
    by_cases hid : id' = id
    · subst hid
      simp [set, hsome]
    · simp [set, hid]

theorem adopt_of_mem {m : ScopeMap} {children : List ScopeId}
    (h : ∀ child ∈ children, ∃ r, m.get child = some r) (dest : ScopeId) :
    ∃ m', m.adopt dest children = some m' ∧ ∀ id, m'.get id = (m.get id).map fun r =>
      if id ∈ children then { r with parent := some dest } else r := by
  induction children generalizing m with
  | nil => exact ⟨m, rfl, by simp⟩
  | cons child rest ih =>
    obtain ⟨r, hr⟩ := h child (List.mem_cons_self ..)
    obtain ⟨m₁, hm₁, hget₁⟩ := getMut_of_some hr fun r => { r with parent := some dest }
    have hrest : ∀ child ∈ rest, ∃ r, m₁.get child = some r := by
      intro child' hchild'
      obtain ⟨r', hr'⟩ := h child' (List.mem_cons_of_mem _ hchild')
      exact ⟨_, by rw [hget₁, hr']; rfl⟩
    obtain ⟨m', hm', hget'⟩ := ih hrest
    refine ⟨m', ?_, ?_⟩
    · unfold adopt at hm' ⊢
      rw [List.foldlM_cons, hm₁]
      exact hm'
    · intro id
      rw [hget', hget₁, Option.map_map]
      congr 1
      funext r
      by_cases hid : id = child <;> by_cases hin : id ∈ rest <;> simp [hid, hin]

/-- What the two calls check: `fiber` is listed once in `source` and nowhere else, and `children` are
listed in `source`, not in `dest`, and hang below `source`. -/
structure Relocatable (m : ScopeMap) (source dest : ScopeId) (fiber : FiberId)
    (children : List ScopeId) : Prop where
  leaves : ∃ r, m.get source = some r ∧ r.state = .Active ∧ r.fibers.count fiber = 1 ∧
    ∀ child ∈ children, child ∈ r.children
  joins : ∃ r, m.get dest = some r ∧ r.state = .Active ∧ fiber ∉ r.fibers ∧
    ∀ child ∈ children, child ∉ r.children
  only : ∀ id r, m.get id = some r → id ≠ source → fiber ∉ r.fibers
  parents : ∀ child ∈ children, m.ParentIs child source

/-- The old Fiber is listed once in the target. -/
def OldListed (m : ScopeMap) (p : PreparedScopeRevision) : Prop :=
  ∃ r, m.get p.target = some r ∧ r.fibers.count p.old = 1

variable {m m' : ScopeMap} {source dest : ScopeId} {fiber : FiberId} {children : List ScopeId}

theorem Relocatable.ne (h : m.Relocatable source dest fiber children) : source ≠ dest := by
  rintro rfl
  obtain ⟨r, hr, -, hone, -⟩ := h.leaves
  obtain ⟨d, hd, -, hnot, -⟩ := h.joins
  obtain rfl : r = d := by simpa [hr] using hd
  exact hnot (List.count_pos_iff.mp (by omega))

/-- `m'` is `m` with `fiber` and `children` moved. -/
def Moved (m m' : ScopeMap) (source dest : ScopeId) (fiber : FiberId) (children : List ScopeId) :
    Prop :=
  ∀ id, m'.get id = (m.get id).map (ScopeRecord.relocated source dest fiber children id)

theorem relocate_of_relocatable (h : m.Relocatable source dest fiber children) :
    ∃ m', m.relocate source dest fiber children = some m' ∧ Moved m m' source dest fiber children := by
  have hne := h.ne
  obtain ⟨r, hr, -⟩ := h.leaves
  obtain ⟨d, hd, -⟩ := h.joins
  obtain ⟨m₁, hm₁, hget₁⟩ := getMut_of_some hr fun r => { r with
    fibers := r.fibers.filter (· ≠ fiber)
    children := r.children.filter (· ∉ children) }
  have hd₁ : ∃ d₁, m₁.get dest = some d₁ := ⟨_, by rw [hget₁, hd]; rfl⟩
  obtain ⟨d₁, hd₁⟩ := hd₁
  obtain ⟨m₂, hm₂, hget₂⟩ := getMut_of_some hd₁ fun r => { r with
    fibers := r.fibers ++ [fiber]
    children := r.children ++ children }
  have hchildren : ∀ child ∈ children, ∃ c, m₂.get child = some c := by
    intro child hchild
    obtain ⟨c, hc, -⟩ := h.parents child hchild
    exact ⟨_, by rw [hget₂, hget₁, hc]; rfl⟩
  obtain ⟨m', hm', hget'⟩ := adopt_of_mem hchildren dest
  refine ⟨m', ?_, ?_⟩
  · rw [relocate, hm₁]
    change (m₁.getMut dest _).bind _ = _
    rw [hm₂]
    exact hm'
  · intro id
    rw [hget', hget₂, hget₁, Option.map_map, Option.map_map]
    congr 1
    funext c
    by_cases hs : id = source <;> by_cases hd : id = dest <;> by_cases hc : id ∈ children <;>
      simp_all [ScopeRecord.relocated]

/-! ## The checks -/

theorem listedOnlyIn_iff {id : ScopeId} : m.listedOnlyIn id fiber = true ↔
    ∀ id' r, m.get id' = some r → id' ≠ id → fiber ∉ r.fibers := by
  simp only [listedOnlyIn, decide_eq_true_eq, m.mem_keys, Option.all_eq_true, Option.isSome_iff_exists]
  constructor
  · intro h id' r hr hne
    exact (h id' ⟨r, hr⟩).resolve_left hne r hr
  · rintro h id' ⟨r, hr⟩
    by_cases hid : id' = id
    · exact .inl hid
    · refine .inr ?_
      rintro r' hr'
      exact h id' r' hr' hid

/-- The commit goes through exactly under its precondition, and otherwise leaves the map as it is. -/
theorem commitLocked_spec (m : ScopeMap) (p : PreparedScopeRevision) :
    (m.Relocatable p.staging p.target p.staged p.children ∧ m.OldListed p ∧
        ∃ m', m.commitLocked p = some (m', .ok ()) ∧
          Moved m m' p.staging p.target p.staged p.children) ∨
      m.commitLocked p = some (m, .error
        (.RevisionValidationFailed "scope topology changed before reload commit")) := by
  unfold commitLocked
  simp only
  split
  · exact .inr rfl
  · rename_i hvalid
    simp only [Bool.not_eq_true', Bool.not_eq_false, Bool.and_eq_true, Option.any_eq_true,
      decide_eq_true_eq, List.all_eq_true, listedOnlyIn_iff] at hvalid
    obtain ⟨⟨⟨⟨r, hr, hactive, hone, hin⟩, ⟨d, hd, hactive', hold, hnot, hout⟩⟩, honly⟩,
      hparents⟩ := hvalid
    have hmove : m.Relocatable p.staging p.target p.staged p.children :=
      ⟨⟨r, hr, hactive, hone, hin⟩, ⟨d, hd, hactive', hnot, hout⟩, honly, hparents⟩
    obtain ⟨m', hm', hmoved⟩ := relocate_of_relocatable hmove
    exact .inl ⟨hmove, ⟨d, hd, hold⟩, m', by rw [hm']; rfl, hmoved⟩

theorem rollbackLocked_spec (m : ScopeMap) (p : PreparedScopeRevision) :
    (m.Relocatable p.target p.staging p.staged p.children ∧ m.OldListed p ∧
        ∃ m', m.rollbackLocked p = some (m', .ok ()) ∧
          Moved m m' p.target p.staging p.staged p.children) ∨
      (¬ (m.Relocatable p.target p.staging p.staged p.children ∧ m.OldListed p) ∧
        m.rollbackLocked p = some (m, .error
          (.RevisionValidationFailed "scope topology changed before reload rollback"))) := by
  unfold rollbackLocked
  simp only
  split
  · rename_i hvalid
    refine .inr ⟨?_, rfl⟩
    rintro ⟨⟨⟨r, hr, hactive, hone, hin⟩, ⟨d, hd, hactive', hnot, hout⟩, honly, hparents⟩,
      r', hr', hold⟩
    obtain rfl : r = r' := by simpa [hr] using hr'
    rw [Bool.not_eq_true', ← Bool.not_eq_true] at hvalid
    apply hvalid
    simp only [Bool.and_eq_true, Option.any_eq_true, decide_eq_true_eq, List.all_eq_true,
      listedOnlyIn_iff]
    exact ⟨⟨⟨⟨r, hr, hactive, hold, hone, hin⟩, ⟨d, hd, hactive', hnot, hout⟩⟩, honly⟩, hparents⟩
  · rename_i hvalid
    simp only [Bool.not_eq_true', Bool.not_eq_false, Bool.and_eq_true, Option.any_eq_true,
      decide_eq_true_eq, List.all_eq_true, listedOnlyIn_iff] at hvalid
    obtain ⟨⟨⟨⟨r, hr, hactive, hold, hone, hin⟩, ⟨d, hd, hactive', hnot, hout⟩⟩, honly⟩,
      hparents⟩ := hvalid
    have hmove : m.Relocatable p.target p.staging p.staged p.children :=
      ⟨⟨r, hr, hactive, hone, hin⟩, ⟨d, hd, hactive', hnot, hout⟩, honly, hparents⟩
    obtain ⟨m', hm', hmoved⟩ := relocate_of_relocatable hmove
    exact .inl ⟨hmove, ⟨r, hr, hold⟩, m', by rw [hm']; rfl, hmoved⟩

/-! ## There and back -/

section Moved

variable (hmove : m.Relocatable source dest fiber children)
  (hmoved : Moved m m' source dest fiber children)

include hmove hmoved

theorem Relocatable.back : m'.Relocatable dest source fiber children := by
  have hne := hmove.ne
  obtain ⟨r, hr, hactive, hone, hin⟩ := hmove.leaves
  obtain ⟨d, hd, hactive', hnot, hout⟩ := hmove.joins
  have hr' : m'.get source = some (r.relocated source dest fiber children source) := by
    rw [hmoved, hr, Option.map_some]
  have hd' : m'.get dest = some (d.relocated source dest fiber children dest) := by
    rw [hmoved, hd, Option.map_some]
  refine ⟨⟨_, hd', hactive', ?_, ?_⟩, ⟨_, hr', hactive, ?_, ?_⟩, ?_, ?_⟩
  · simp [ScopeRecord.relocated, hne.symm, List.count_eq_zero_of_not_mem hnot]
  · intro child hchild
    simp [ScopeRecord.relocated, hchild]
  · simp [ScopeRecord.relocated, hne]
  · intro child hchild
    simp [ScopeRecord.relocated, hne, hchild]
  · intro id q hq hid
    rw [hmoved, Option.map_eq_some_iff] at hq
    obtain ⟨q', hq', rfl⟩ := hq
    by_cases hs : id = source
    · simp [ScopeRecord.relocated, hs, hne]
    · simpa [ScopeRecord.relocated, hs, hid] using hmove.only id q' hq' hs
  · intro child hchild
    obtain ⟨q, hq, -⟩ := hmove.parents child hchild
    exact ⟨_, by rw [hmoved, hq]; rfl, if_pos hchild⟩

omit hmoved in
theorem Relocatable.restores (hdistinct : m.Distinct) (hchildren : children.Nodup) {id : ScopeId}
    {r : ScopeRecord} (hr : m.get id = some r) :
    r.Same ((r.relocated source dest fiber children id).relocated dest source fiber children id) := by
  have hne := hmove.ne
  have hparent : id ∈ children → r.parent = some source := by
    intro hid
    obtain ⟨q, hq, hparent⟩ := hmove.parents id hid
    obtain rfl : r = q := by simpa [hr] using hq
    exact hparent
  refine ⟨?_, ?_, ?_, rfl, rfl⟩
  · by_cases hid : id ∈ children
    · simp [ScopeRecord.relocated, hid, hparent hid]
    · simp [ScopeRecord.relocated, hid]
  · by_cases hs : id = source
    · subst hs
      obtain ⟨q, hq, -, -, hin⟩ := hmove.leaves
      obtain rfl : r = q := by simpa [hr] using hq
      have hperm := filter_append_perm_of_subset (hdistinct id r hr).1 hchildren hin
      simpa [ScopeRecord.relocated, hne] using hperm
    · by_cases hd : id = dest
      · subst hd
        obtain ⟨q, hq, -, -, hout⟩ := hmove.joins
        obtain rfl : r = q := by simpa [hr] using hq
        have hkept : r.children.filter (fun x => !decide (x ∈ children)) = r.children :=
          List.filter_eq_self.mpr fun x hx => by
            simpa using fun hx' => hout x hx' hx
        have hnone : children.filter (fun x => !decide (x ∈ children)) = [] :=
          List.filter_eq_nil_iff.mpr fun x hx => by simp [hx]
        simp [ScopeRecord.relocated, hs, hkept, hnone]
      · simp [ScopeRecord.relocated, hs, hd]
  · by_cases hs : id = source
    · subst hs
      obtain ⟨q, hq, -, hone, -⟩ := hmove.leaves
      obtain rfl : r = q := by simpa [hr] using hq
      simpa [ScopeRecord.relocated, hne] using filter_append_perm_of_count hone
    · by_cases hd : id = dest
      · subst hd
        obtain ⟨q, hq, -, hnot, -⟩ := hmove.joins
        obtain rfl : r = q := by simpa [hr] using hq
        have hkept : r.fibers.filter (fun x => !decide (x = fiber)) = r.fibers :=
          List.filter_eq_self.mpr fun x hx => by
            have : x ≠ fiber := fun h => hnot (h ▸ hx)
            simp [this]
        simp [ScopeRecord.relocated, hs, hkept]
      · simp [ScopeRecord.relocated, hs, hd]

/-! ## The tree -/

theorem Relocatable.distinct (hdistinct : m.Distinct) (hchildren : children.Nodup) :
    m'.Distinct := by
  have hne := hmove.ne
  intro id q hq
  rw [hmoved, Option.map_eq_some_iff] at hq
  obtain ⟨r, hr, rfl⟩ := hq
  obtain ⟨hc, hf⟩ := hdistinct id r hr
  by_cases hs : id = source
  · have hd : id ≠ dest := hs ▸ hne
    constructor
    · simpa [ScopeRecord.relocated, hs, hne] using hc.filter _
    · simpa [ScopeRecord.relocated, hs, hne] using hf.filter _
  · by_cases hd : id = dest
    · subst hd
      obtain ⟨q, hq, -, hnot, hout⟩ := hmove.joins
      obtain rfl : r = q := by simpa [hr] using hq
      have hdisjoint : r.children.Disjoint children := fun x hx hx' => hout x hx' hx
      have hfresh : r.fibers.Disjoint [fiber] := by simpa using hnot
      constructor
      · simpa [ScopeRecord.relocated, hs] using hc.append hchildren hdisjoint
      · simpa [ScopeRecord.relocated, hs] using hf.append (List.nodup_singleton fiber) hfresh
    · simpa [ScopeRecord.relocated, hs, hd] using ⟨hc, hf⟩

theorem Relocatable.listsFiber (id : ScopeId) : m'.ListsFiber id fiber ↔ id = dest := by
  have hback := hmove.back hmoved
  constructor
  · rintro ⟨r, hr, hin⟩
    by_contra hid
    exact hback.only id r hr hid hin
  · rintro rfl
    obtain ⟨r, hr, -, hone, -⟩ := hback.leaves
    exact ⟨r, hr, List.count_pos_iff.mp (by omega)⟩

theorem Relocatable.parentIs (child parent : ScopeId) : m'.ParentIs child parent ↔
    if child ∈ children then parent = dest else m.ParentIs child parent := by
  unfold ParentIs
  simp only [hmoved child, Option.map_eq_some_iff]
  split
  · rename_i hchild
    constructor
    · rintro ⟨_, ⟨r, -, rfl⟩, hparent⟩
      simpa [ScopeRecord.relocated, hchild, eq_comm] using hparent
    · rintro rfl
      obtain ⟨r, hr, -⟩ := hmove.parents child hchild
      exact ⟨_, ⟨r, hr, rfl⟩, if_pos hchild⟩
  · rename_i hchild
    constructor
    · rintro ⟨_, ⟨r, hr, rfl⟩, hparent⟩
      exact ⟨r, hr, by simpa [ScopeRecord.relocated, hchild] using hparent⟩
    · rintro ⟨r, hr, hparent⟩
      exact ⟨_, ⟨r, hr, rfl⟩, by simpa [ScopeRecord.relocated, hchild] using hparent⟩

theorem Relocatable.lists (parent child : ScopeId) : m'.Lists parent child ↔
    if child ∈ children then parent = dest ∨ parent ≠ source ∧ m.Lists parent child
    else m.Lists parent child := by
  have hne := hmove.ne
  unfold Lists
  simp only [hmoved parent, Option.map_eq_some_iff]
  split
  · rename_i hchild
    constructor
    · rintro ⟨_, ⟨r, hr, rfl⟩, hin⟩
      by_cases hd : parent = dest
      · exact .inl hd
      · by_cases hs : parent = source
        · simp [ScopeRecord.relocated, hs, hne, hchild] at hin
        · exact .inr ⟨hs, r, hr, by simpa [ScopeRecord.relocated, hs, hd] using hin⟩
    · rintro (rfl | ⟨hs, r, hr, hin⟩)
      · obtain ⟨d, hd, -⟩ := hmove.joins
        exact ⟨_, ⟨d, hd, rfl⟩, by simp [ScopeRecord.relocated, hchild]⟩
      · refine ⟨_, ⟨r, hr, rfl⟩, ?_⟩
        simp only [ScopeRecord.relocated, if_neg hs]
        split
        · exact List.mem_append_left _ hin
        · exact hin
  · rename_i hchild
    have hiff : ∀ r : ScopeRecord,
        child ∈ (r.relocated source dest fiber children parent).children ↔ child ∈ r.children := by
      intro r
      by_cases hs : parent = source <;> by_cases hd : parent = dest <;>
        simp [ScopeRecord.relocated, hs, hd, hchild, hne, hne.symm]
    constructor
    · rintro ⟨_, ⟨r, hr, rfl⟩, hin⟩
      exact ⟨r, hr, (hiff r).mp hin⟩
    · rintro ⟨r, hr, hin⟩
      exact ⟨_, ⟨r, hr, rfl⟩, (hiff r).mpr hin⟩

theorem Relocatable.leads {root : ScopeId} (htree : m.WellFormed root)
    (hbelow : m.ParentIs source dest) {id : ScopeId} (h : Relation.ReflTransGen m.ParentIs id root) :
    Relation.ReflTransGen m'.ParentIs id root := by
  obtain ⟨r, hr, hparent⟩ := hbelow
  have hstays : source ∉ children := by
    intro hin
    obtain ⟨q, hq, hself⟩ := hmove.parents source hin
    obtain rfl : r = q := by simpa [hr] using hq
    exact hmove.ne (Option.some.inj (hself.symm.trans hparent))
  -- the way from `source` begins with the step to `dest`
  have hover : Relation.ReflTransGen m'.ParentIs source root →
      Relation.ReflTransGen m'.ParentIs dest root := by
    intro hsource
    obtain rfl | ⟨next, hnext, hrest⟩ := hsource.cases_head
    · obtain ⟨q, hq, hnone⟩ := htree.top
      obtain rfl : r = q := by simpa [hr] using hq
      rw [hparent] at hnone
      cases hnone
    · rw [hmove.parentIs hmoved, if_neg hstays] at hnext
      obtain ⟨q, hq, hnext⟩ := hnext
      obtain rfl : r = q := by simpa [hr] using hq
      obtain rfl : dest = next := Option.some.inj (hparent.symm.trans hnext)
      exact hrest
  induction h using Relation.ReflTransGen.head_induction_on with
  | refl => exact .refl
  | @head child parent hstep _ ih =>
    by_cases hin : child ∈ children
    · obtain ⟨q, hq, hpq⟩ := hmove.parents child hin
      obtain ⟨q', hq', hpq'⟩ := hstep
      obtain rfl : q = q' := by simpa [hq] using hq'
      obtain rfl : source = parent := Option.some.inj (hpq.symm.trans hpq')
      exact .head ((hmove.parentIs hmoved child dest).mpr (by rw [if_pos hin])) (hover ih)
    · exact .head ((hmove.parentIs hmoved child parent).mpr (by rwa [if_neg hin])) ih

theorem Relocatable.wellFormed {root : ScopeId} (htree : m.WellFormed root)
    (hbelow : m.ParentIs source dest) : m'.WellFormed root := by
  refine ⟨?_, ?_, ?_⟩
  · obtain ⟨r, hr, hnone⟩ := htree.top
    have hstays : root ∉ children := by
      intro hin
      obtain ⟨q, hq, hparent⟩ := hmove.parents root hin
      obtain rfl : r = q := by simpa [hr] using hq
      rw [hnone] at hparent
      cases hparent
    exact ⟨_, by rw [hmoved, hr]; rfl, by simpa [ScopeRecord.relocated, hstays] using hnone⟩
  · intro parent child
    rw [hmove.parentIs hmoved, hmove.lists hmoved]
    split
    · rename_i hchild
      refine or_iff_left ?_
      rintro ⟨hs, hlists⟩
      -- in the tree only `source` listed it
      obtain ⟨q, hq, hparent⟩ := (htree.agree parent child).mp hlists
      obtain ⟨q', hq', hparent'⟩ := hmove.parents child hchild
      obtain rfl : q = q' := by simpa [hq] using hq'
      exact hs (Option.some.inj (hparent.symm.trans hparent'))
    · exact htree.agree parent child
  · intro id hid
    rw [m'.mem_keys, hmoved, Option.isSome_map, ← m.mem_keys] at hid
    exact hmove.leads hmoved htree hbelow (htree.leads id hid)

end Moved

/-! ## The two calls -/

theorem Moved.keys (h : Moved m m' source dest fiber children) : m'.keys = m.keys := by
  ext id
  rw [m'.mem_keys, h, Option.isSome_map, ← m.mem_keys]

/-- The commit leaves the old Fiber where the rollback looks for it. -/
theorem OldListed.moved {p : PreparedScopeRevision} (hold : m.OldListed p)
    (hmove : m.Relocatable p.staging p.target p.staged p.children)
    (hmoved : Moved m m' p.staging p.target p.staged p.children) : m'.OldListed p := by
  obtain ⟨r, hr, hone⟩ := hold
  obtain ⟨d, hd, -, hnot, -⟩ := hmove.joins
  obtain rfl : r = d := by simpa [hr] using hd
  have hne : p.old ≠ p.staged := by
    intro h
    rw [h, List.count_eq_zero_of_not_mem hnot] at hone
    cases hone
  refine ⟨_, by rw [hmoved, hr]; rfl, ?_⟩
  simpa [ScopeRecord.relocated, hmove.ne.symm, List.count_singleton, hne.symm] using hone

/-- For every Scope map without a doubly listed id and every revision with distinct children: no call
panics; a commit that goes through can be rolled back, and the rollback restores every record; a
refused call leaves the map; and where the staging Scope hangs below the target in a tree, the
committed map is a tree again in which the staged Fiber is listed in the target alone. -/
theorem scope_revision_inverse (scopes : ScopeMap) (p : PreparedScopeRevision)
    (hdistinct : scopes.Distinct) (hchildren : p.children.Nodup) :
    (scopes.commitLocked p ≠ none ∧ scopes.rollbackLocked p ≠ none) ∧
      (∀ scopes', scopes.commitLocked p = some (scopes', .ok ()) →
        ∃ scopes'', scopes'.rollbackLocked p = some (scopes'', .ok ()) ∧ scopes.Same scopes'') ∧
      (∀ scopes' e, scopes.commitLocked p = some (scopes', .error e) → scopes' = scopes) ∧
      (∀ scopes' e, scopes.rollbackLocked p = some (scopes', .error e) → scopes' = scopes) ∧
      ∀ root scopes', scopes.commitLocked p = some (scopes', .ok ()) → scopes.WellFormed root →
        scopes.ParentIs p.staging p.target →
        scopes'.WellFormed root ∧ scopes'.Distinct ∧
          ∀ id, scopes'.ListsFiber id p.staged ↔ id = p.target := by
  have hcommitted : ∀ scopes', scopes.commitLocked p = some (scopes', .ok ()) →
      scopes.Relocatable p.staging p.target p.staged p.children ∧ scopes.OldListed p ∧
        Moved scopes scopes' p.staging p.target p.staged p.children := by
    intro scopes' hok
    obtain ⟨hmove, hold, m', hm', hmoved⟩ | herr := scopes.commitLocked_spec p
    · rw [hm'] at hok
      cases hok
      exact ⟨hmove, hold, hmoved⟩
    · rw [herr] at hok
      cases hok
  refine ⟨⟨?_, ?_⟩, ?_, ?_, ?_, ?_⟩
  · obtain ⟨-, -, m', hm', -⟩ | herr := scopes.commitLocked_spec p <;> simp [*]
  · obtain ⟨-, -, m', hm', -⟩ | ⟨-, herr⟩ := scopes.rollbackLocked_spec p <;> simp [*]
  · intro scopes' hok
    obtain ⟨hmove, hold, hmoved⟩ := hcommitted scopes' hok
    obtain ⟨-, -, scopes'', hback, hmoved'⟩ | ⟨hnot, -⟩ := scopes'.rollbackLocked_spec p
    · refine ⟨scopes'', hback, hmoved'.keys.trans hmoved.keys, ?_⟩
      intro id r hr
      exact ⟨_, by rw [hmoved', hmoved, hr]; rfl, hmove.restores hdistinct hchildren hr⟩
    · exact absurd ⟨hmove.back hmoved, hold.moved hmove hmoved⟩ hnot
  · intro scopes' e hrefused
    obtain ⟨-, -, m', hm', -⟩ | herr := scopes.commitLocked_spec p
    · rw [hm'] at hrefused
      cases hrefused
    · rw [herr] at hrefused
      cases hrefused
      rfl
  · intro scopes' e hrefused
    obtain ⟨-, -, m', hm', -⟩ | ⟨-, herr⟩ := scopes.rollbackLocked_spec p
    · rw [hm'] at hrefused
      cases hrefused
    · rw [herr] at hrefused
      cases hrefused
      rfl
  · intro root scopes' hok htree hbelow
    obtain ⟨hmove, -, hmoved⟩ := hcommitted scopes' hok
    exact ⟨hmove.wellFormed hmoved htree hbelow, hmove.distinct hmoved hdistinct hchildren,
      hmove.listsFiber hmoved⟩

/-! ## A tree in the middle of a reload -/

/-- The staging Scope 2 with its child 3 hangs below the target 1. -/
def reloadingTree : ScopeMap where
  keys := {0, 1, 2, 3}
  get
    | 0 => some ⟨none, [1], [], .Active, false⟩
    | 1 => some ⟨some 0, [2], [4], .Active, false⟩
    | 2 => some ⟨some 1, [3], [5], .Active, true⟩
    | 3 => some ⟨some 2, [], [6], .Active, false⟩
    | _ => none
  mem_keys id := by
    split
    all_goals simp
    tauto

/-- The staged Fiber 5 replaces the Fiber 4. -/
def reloadingRevision : PreparedScopeRevision := ⟨2, 1, 5, 4, [3]⟩

theorem reloadingTree_get {id : ScopeId} {r : ScopeRecord} (h : reloadingTree.get id = some r) :
    (id = 0 ∧ r = ⟨none, [1], [], .Active, false⟩) ∨
      (id = 1 ∧ r = ⟨some 0, [2], [4], .Active, false⟩) ∨
        (id = 2 ∧ r = ⟨some 1, [3], [5], .Active, true⟩) ∨
          id = 3 ∧ r = ⟨some 2, [], [6], .Active, false⟩ := by
  unfold reloadingTree at h
  simp only at h
  split at h <;> simp_all

theorem reloadingTree_wellFormed : reloadingTree.WellFormed 0 := by
  have hup : reloadingTree.ParentIs 1 0 ∧ reloadingTree.ParentIs 2 1 ∧ reloadingTree.ParentIs 3 2 :=
    ⟨⟨_, rfl, rfl⟩, ⟨_, rfl, rfl⟩, ⟨_, rfl, rfl⟩⟩
  have hdown : reloadingTree.Lists 0 1 ∧ reloadingTree.Lists 1 2 ∧ reloadingTree.Lists 2 3 :=
    ⟨⟨_, rfl, by decide⟩, ⟨_, rfl, by decide⟩, ⟨_, rfl, by decide⟩⟩
  refine ⟨⟨_, rfl, rfl⟩, ?_, ?_⟩
  · intro parent child
    constructor
    · rintro ⟨r, hr, hin⟩
      obtain ⟨rfl, rfl⟩ | ⟨rfl, rfl⟩ | ⟨rfl, rfl⟩ | ⟨rfl, rfl⟩ := reloadingTree_get hr <;>
        simp at hin <;> subst hin <;> tauto
    · rintro ⟨r, hr, hparent⟩
      obtain ⟨rfl, rfl⟩ | ⟨rfl, rfl⟩ | ⟨rfl, rfl⟩ | ⟨rfl, rfl⟩ := reloadingTree_get hr <;>
        simp at hparent <;> subst hparent <;> tauto
  · intro id hid
    have h₁ : Relation.ReflTransGen reloadingTree.ParentIs 1 0 := .single hup.1
    have h₂ : Relation.ReflTransGen reloadingTree.ParentIs 2 0 := .head hup.2.1 h₁
    have h₃ : Relation.ReflTransGen reloadingTree.ParentIs 3 0 := .head hup.2.2 h₂
    obtain ⟨r, hr⟩ := Option.isSome_iff_exists.mp ((reloadingTree.mem_keys id).mp hid)
    obtain ⟨rfl, -⟩ | ⟨rfl, -⟩ | ⟨rfl, -⟩ | ⟨rfl, -⟩ := reloadingTree_get hr
    · exact .refl
    · exact h₁
    · exact h₂
    · exact h₃

/-- The revision of the tree goes through, and both of its directions say something there. -/
theorem scope_revision_inverse_reloading :
    ∃ scopes', reloadingTree.commitLocked reloadingRevision = some (scopes', .ok ()) ∧
      (∃ scopes'', scopes'.rollbackLocked reloadingRevision = some (scopes'', .ok ()) ∧
        reloadingTree.Same scopes'') ∧
      scopes'.WellFormed 0 ∧ ∀ id, scopes'.ListsFiber id 5 ↔ id = 1 := by
  have hdistinct : reloadingTree.Distinct := by
    intro id r hr
    obtain ⟨-, rfl⟩ | ⟨-, rfl⟩ | ⟨-, rfl⟩ | ⟨-, rfl⟩ := reloadingTree_get hr <;> decide
  have h := scope_revision_inverse reloadingTree reloadingRevision hdistinct (by decide)
  obtain ⟨scopes', hok⟩ :
      ∃ scopes', reloadingTree.commitLocked reloadingRevision = some (scopes', .ok ()) :=
    ⟨_, rfl⟩
  have htree := h.2.2.2.2 0 scopes' hok reloadingTree_wellFormed ⟨_, rfl, rfl⟩
  exact ⟨scopes', hok, h.2.1 scopes' hok, htree.1, htree.2.2⟩

end ScopeMap

/-! ## The cutover works on the Scope map of its Runtime -/

namespace Runtime

variable {rt : Runtime}

/-- No Scope was handed out beyond the counter. -/
def ScopesBounded (rt : Runtime) : Prop := ∀ s, rt.nextScope ≤ s → rt.scope s = none

/-- So it is in every reachable Runtime (`topology_reach`). -/
theorem Topology.scopesBounded (h : Topology rt) : rt.ScopesBounded := by
  intro s hs
  cases hc : rt.scope s with
  | none => rfl
  | some c => exact absurd (h.scopes s c (scope_eq_some.mp hc).1).1 (Nat.not_lt.mpr hs)

theorem scopeMap_get (h : rt.ScopesBounded) (s : ScopeId) :
    rt.scopeMap.get s = (rt.scope s).map ScopeCell.record := by
  by_cases hs : s < rt.nextScope
  · simp [scopeMap, hs]
  · simp [scopeMap, hs, h s (Nat.le_of_not_lt hs)]

theorem relocated_record {source dest : ScopeId} {fiber : FiberId} {children : List ScopeId}
    {s : ScopeId} {c : ScopeCell} (h : c.inArena = true) :
    (relocated source dest fiber children s c).record =
      c.record.relocated source dest fiber children s := by
  simp [relocated, h, ScopeCell.record, ScopeRecord.relocated]

theorem Relocatable.scopeMap {source dest : ScopeId} {fiber : FiberId} {children : List ScopeId}
    (hb : rt.ScopesBounded) (h : rt.Relocatable source dest fiber children) :
    rt.scopeMap.Relocatable source dest fiber children := by
  obtain ⟨⟨c, hc, hleaves⟩, ⟨d, hd, hjoins⟩, honly, hparents⟩ := h
  refine ⟨⟨c.record, by rw [scopeMap_get hb, hc]; rfl, hleaves⟩,
    ⟨d.record, by rw [scopeMap_get hb, hd]; rfl, hjoins⟩, ?_, ?_⟩
  · intro id r hr hid
    rw [scopeMap_get hb, Option.map_eq_some_iff] at hr
    obtain ⟨q, hq, rfl⟩ := hr
    have hlt : id < rt.nextScope := by
      by_contra hge
      rw [hb id (Nat.le_of_not_lt hge)] at hq
      cases hq
    exact honly id hlt hid q hq
  · intro child hchild
    obtain ⟨q, hq, hparent⟩ := hparents child hchild
    exact ⟨q.record, by rw [scopeMap_get hb, hq]; rfl, hparent⟩

theorem relocate_scopeMap {source dest : ScopeId} {fiber : FiberId} {children : List ScopeId}
    (hb : rt.ScopesBounded) (h : rt.Relocatable source dest fiber children) :
    rt.scopeMap.relocate source dest fiber children =
      some (rt.relocate source dest fiber children).scopeMap := by
  obtain ⟨m', hm', hmoved⟩ := ScopeMap.relocate_of_relocatable (h.scopeMap hb)
  have hnext : (rt.relocate source dest fiber children).nextScope = rt.nextScope := by
    rw [(relocate_only rt source dest fiber children).eq]
  have hb' : (rt.relocate source dest fiber children).ScopesBounded := by
    intro s hs
    rw [relocate_scope, hb s (hnext ▸ hs)]
    rfl
  rw [hm', Option.some.injEq]
  ext1 s
  rw [hmoved, scopeMap_get hb, scopeMap_get hb', relocate_scope, Option.map_map, Option.map_map]
  cases hs : rt.scope s with
  | none => rfl
  | some c =>
    rw [Option.map_some, Option.map_some, Function.comp, Function.comp,
      relocated_record (scope_eq_some.mp hs).2]

theorem listedOnlyIn_scopeMap (hb : rt.ScopesBounded) (s : ScopeId) (fiber : FiberId) :
    rt.scopeMap.listedOnlyIn s fiber = rt.listedOnlyIn s fiber := by
  rw [Bool.eq_iff_iff, ScopeMap.listedOnlyIn_iff, listedOnlyIn_iff]
  constructor
  · intro h id _ hid c hc
    exact h id c.record (by rw [scopeMap_get hb, hc]; rfl) hid
  · intro h id r hr hid
    rw [scopeMap_get hb, Option.map_eq_some_iff] at hr
    obtain ⟨c, hc, rfl⟩ := hr
    have hlt : id < rt.nextScope := by
      by_contra hge
      rw [hb id (Nat.le_of_not_lt hge)] at hc
      cases hc
    exact h id hlt hid c hc

theorem rollbackLocked_ok {rt' : Runtime} {p : PreparedScopeRevision}
    (h : rt.rollbackLocked p = .ok rt') :
    Relocatable rt p.target p.staging p.staged p.children ∧
      rt' = rt.relocate p.target p.staging p.staged p.children := by
  unfold rollbackLocked at h
  simp only at h
  split_ifs at h with hvalid
  obtain rfl : rt.relocate p.target p.staging p.staged p.children = rt' := by simpa using h
  simp only [Bool.not_eq_true', Bool.not_eq_false, Bool.and_eq_true, Option.any_eq_true,
    decide_eq_true_eq, List.all_eq_true, listedOnlyIn_iff] at hvalid
  obtain ⟨⟨⟨⟨c, hc, hactive, -, hone, hin⟩, ⟨d, hd, hactive', hnot, hout⟩⟩, honly⟩,
    hparents⟩ := hvalid
  exact ⟨⟨⟨c, hc, hactive, hone, hin⟩, ⟨d, hd, hactive', hnot, hout⟩, honly, hparents⟩, rfl⟩

/-- What a call of the transaction does, as a call on the map that it locks. -/
def onScopeMap (rt : Runtime) : Except CordisError Runtime → ScopeMap × Outcome
  | .ok rt' => (rt'.scopeMap, .ok ())
  | .error e => (rt.scopeMap, .error e)

theorem commitLocked_refines (hb : rt.ScopesBounded) (p : PreparedScopeRevision) :
    rt.scopeMap.commitLocked p = some (rt.onScopeMap (rt.commitLocked p)) := by
  cases h : rt.commitLocked p with
  | ok rt' =>
    obtain ⟨hmove, -, rfl⟩ := commitLocked_ok h
    have hmap := relocate_scopeMap hb hmove
    unfold commitLocked at h
    unfold ScopeMap.commitLocked
    simp only [scopeMap_get hb, Option.any_map, listedOnlyIn_scopeMap hb] at h ⊢
    split at h
    · cases h
    · rename_i hvalid
      refine (if_neg hvalid).trans ?_
      rw [hmap]
      rfl
  | error e =>
    unfold commitLocked at h
    unfold ScopeMap.commitLocked
    simp only [scopeMap_get hb, Option.any_map, listedOnlyIn_scopeMap hb] at h ⊢
    split at h
    · rename_i hvalid
      cases h
      exact if_pos hvalid
    · cases h

theorem rollbackLocked_refines (hb : rt.ScopesBounded) (p : PreparedScopeRevision) :
    rt.scopeMap.rollbackLocked p = some (rt.onScopeMap (rt.rollbackLocked p)) := by
  cases h : rt.rollbackLocked p with
  | ok rt' =>
    obtain ⟨hmove, rfl⟩ := rollbackLocked_ok h
    have hmap := relocate_scopeMap hb hmove
    unfold rollbackLocked at h
    unfold ScopeMap.rollbackLocked
    simp only [scopeMap_get hb, Option.any_map, listedOnlyIn_scopeMap hb] at h ⊢
    split at h
    · cases h
    · rename_i hvalid
      refine (if_neg hvalid).trans ?_
      rw [hmap]
      rfl
  | error e =>
    unfold rollbackLocked at h
    unfold ScopeMap.rollbackLocked
    simp only [scopeMap_get hb, Option.any_map, listedOnlyIn_scopeMap hb] at h ⊢
    split at h
    · rename_i hvalid
      cases h
      exact if_pos hvalid
    · cases h

end Runtime

end Cordis
