import Cordis.Runtime.Cutover
import Mathlib.Data.Finset.Filter
import Mathlib.Data.Finset.Range
import Mathlib.Logic.Relation

/-!
# The Scope map and its revision

`commit_locked` and `rollback_locked` on the slot map that they are handed, with the panic of an
`expect` as a result of its own and the map that a refused call leaves.
-/

namespace Cordis

/-- A `ScopeRecord`, less its name and the state of its disposal. -/
structure ScopeRecord where
  parent : Option ScopeId
  children : List ScopeId
  fibers : List FiberId
  state : ScopeState
  hidden : Bool
  deriving DecidableEq

/-- A `SlotMap<ScopeId, ScopeRecord>`: its keys and the record of each. -/
structure ScopeMap where
  keys : Finset ScopeId
  get : ScopeId → Option ScopeRecord
  mem_keys : ∀ id, id ∈ keys ↔ (get id).isSome = true

namespace ScopeMap

open Cordis.Runtime (PreparedScopeRevision)

variable (scopes : ScopeMap)

/-- A change of the record of `id`, which is there. -/
def set (id : ScopeId) (record : ScopeRecord) (h : (scopes.get id).isSome = true) : ScopeMap where
  keys := scopes.keys
  get := Function.update scopes.get id (some record)
  mem_keys id' := by
    by_cases hid : id' = id
    · subst hid
      simp [scopes.mem_keys, h]
    · rw [Function.update_of_ne hid, scopes.mem_keys]

/-- `get_mut(id).expect(..)` and a change of the record; without the record the call panics. -/
def getMut (id : ScopeId) (change : ScopeRecord → ScopeRecord) : Option ScopeMap :=
  match h : scopes.get id with
  | none => none
  | some record => some (scopes.set id (change record) (by rw [h]; rfl))

/-- The Fiber is listed in no Scope but `id`, of all the map holds. -/
def listedOnlyIn (id : ScopeId) (fiber : FiberId) : Bool :=
  decide (∀ id' ∈ scopes.keys, id' = id ∨ (scopes.get id').all (fiber ∉ ·.fibers) = true)

/-- The loop over the children: their parent becomes `dest`. -/
def adopt (dest : ScopeId) (children : List ScopeId) : Option ScopeMap :=
  children.foldlM (fun scopes child =>
    scopes.getMut child fun record => { record with parent := some dest }) scopes

/-- The changes that both calls make: the Fiber and the child Scopes leave `source` and join `dest`. -/
def relocate (source dest : ScopeId) (fiber : FiberId) (children : List ScopeId) :
    Option ScopeMap := do
  let scopes ← scopes.getMut source fun record => { record with
    fibers := record.fibers.filter (· ≠ fiber)
    children := record.children.filter (· ∉ children) }
  let scopes ← scopes.getMut dest fun record => { record with
    fibers := record.fibers ++ [fiber]
    children := record.children ++ children }
  scopes.adopt dest children

/-- `PreparedScopeRevision::commit_locked`: the map it leaves and what it returns. -/
def commitLocked (p : PreparedScopeRevision) : Option (ScopeMap × Outcome) :=
  let valid :=
    (scopes.get p.staging).any (fun record =>
      record.state = .Active ∧ record.fibers.count p.staged = 1 ∧
        p.children.all (· ∈ record.children)) &&
    (scopes.get p.target).any (fun record =>
      record.state = .Active ∧ record.fibers.count p.old = 1 ∧ p.staged ∉ record.fibers ∧
        p.children.all (· ∉ record.children)) &&
    scopes.listedOnlyIn p.staging p.staged &&
    p.children.all fun child => (scopes.get child).any (·.parent = some p.staging)
  if !valid then
    some (scopes,
      .error (.RevisionValidationFailed "scope topology changed before reload commit"))
  else (scopes.relocate p.staging p.target p.staged p.children).map fun scopes => (scopes, .ok ())

/-- `PreparedScopeRevision::rollback_locked`. -/
def rollbackLocked (p : PreparedScopeRevision) : Option (ScopeMap × Outcome) :=
  let valid :=
    (scopes.get p.target).any (fun record =>
      record.state = .Active ∧ record.fibers.count p.old = 1 ∧
        record.fibers.count p.staged = 1 ∧ p.children.all (· ∈ record.children)) &&
    (scopes.get p.staging).any (fun record =>
      record.state = .Active ∧ p.staged ∉ record.fibers ∧
        p.children.all (· ∉ record.children)) &&
    scopes.listedOnlyIn p.target p.staged &&
    p.children.all fun child => (scopes.get child).any (·.parent = some p.target)
  if !valid then
    some (scopes,
      .error (.RevisionValidationFailed "scope topology changed before reload rollback"))
  else (scopes.relocate p.target p.staging p.staged p.children).map fun scopes => (scopes, .ok ())

/-! ## Scope trees -/

/-- No id occurs twice in one list. -/
def Distinct : Prop :=
  ∀ id record, scopes.get id = some record → record.children.Nodup ∧ record.fibers.Nodup

/-- The record of `child` names `parent`. -/
def ParentIs (child parent : ScopeId) : Prop :=
  ∃ record, scopes.get child = some record ∧ record.parent = some parent

/-- The record of `parent` lists `child`. -/
def Lists (parent child : ScopeId) : Prop :=
  ∃ record, scopes.get parent = some record ∧ child ∈ record.children

/-- The record of `id` lists `fiber`. -/
def ListsFiber (id : ScopeId) (fiber : FiberId) : Prop :=
  ∃ record, scopes.get id = some record ∧ fiber ∈ record.fibers

/-- The map is a tree below `root`. -/
structure WellFormed (root : ScopeId) : Prop where
  top : ∃ record, scopes.get root = some record ∧ record.parent = none
  agree : ∀ parent child, scopes.Lists parent child ↔ scopes.ParentIs child parent
  leads : ∀ id ∈ scopes.keys, Relation.ReflTransGen scopes.ParentIs id root

end ScopeMap

/-- The same record up to the order of its lists. -/
structure ScopeRecord.Same (r r' : ScopeRecord) : Prop where
  parent : r'.parent = r.parent
  children : r'.children.Perm r.children
  fibers : r'.fibers.Perm r.fibers
  state : r'.state = r.state
  hidden : r'.hidden = r.hidden

/-- The same keys, and the same record under each. -/
structure ScopeMap.Same (m m' : ScopeMap) : Prop where
  keys : m'.keys = m.keys
  records : ∀ id r, m.get id = some r → ∃ r', m'.get id = some r' ∧ r.Same r'

/-! ## The Scope map of a Runtime -/

def ScopeCell.record (c : ScopeCell) : ScopeRecord :=
  ⟨c.parent, c.children, c.fibers, c.state, c.hidden⟩

/-- What the Runtime's Scope arena holds. -/
def Runtime.scopeMap (rt : Runtime) : ScopeMap where
  keys := (Finset.range rt.nextScope).filter fun id => (rt.scope id).isSome
  get id := if id < rt.nextScope then (rt.scope id).map ScopeCell.record else none
  mem_keys id := by
    by_cases h : id < rt.nextScope <;> simp [h]

end Cordis
