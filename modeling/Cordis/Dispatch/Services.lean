import Cordis.Gate.Capability
import Mathlib.Algebra.Order.Ring.Int
import Mathlib.Data.List.Basic
import Mathlib.Logic.Relation

/-!
# The service registry

The critical sections of `ServiceRegistry` that a lookup and a reload go through: `resolve_owned`, the
two sections of `resolve` with the resolution cache, `insert`, `remove`, and the three parts of
`commit_revision_and_publish` around its cutover. Gates are numbers in a `Gates`.
-/

namespace Cordis

/-- `CapabilityGate::is_visible`. -/
def Gates.isVisible (s : Gates) (g : Nat) : Bool := (s.gate g).isVisible (s.active (s.selector g))

theorem Gates.isVisible_iff {s : Gates} {g : Nat} :
    s.isVisible g = true ↔ s.active (s.selector g) = s.generation g := beq_iff_eq

namespace Services

structure ServiceEntry where
  owner : FiberId
  scope : ScopeId
  gate : Nat
  deriving DecidableEq

/-- What an earlier resolution found: the Scope and the owner of the entry, or nothing. -/
structure CacheEntry where
  epoch : Nat
  location : Option (ScopeId × FiberId)
  deriving DecidableEq

abbrev Entries := ScopeId → ServiceSymbol → Option ServiceEntry

inductive CacheLookup
  | Miss
  | Hit (entry : Option ServiceEntry)

/-- `PreparedServiceRevision`. -/
structure PreparedServiceRevision where
  source : ScopeId
  target : ScopeId
  symbols : List ServiceSymbol
  oldOwner : FiberId
  stagedOwner : FiberId

/-! ## The entries -/

namespace Entries

variable (entries : Entries)

def insert (scope : ScopeId) (symbol : ServiceSymbol) (entry : ServiceEntry) : Entries := fun a k =>
  if a = scope ∧ k = symbol then some { entry with scope := scope } else entries a k

def remove (scope : ScopeId) (symbol : ServiceSymbol) : Entries := fun a k =>
  if a = scope ∧ k = symbol then none else entries a k

/-- The nearest visible entry. -/
def locate (visible : ScopeId → Nat → Bool) (ancestry : List ScopeId) (symbol : ServiceSymbol) :
    Option (ScopeId × FiberId) :=
  ancestry.findSome? fun scope =>
    ((entries scope symbol).filter fun e => visible scope e.gate).map fun e => (scope, e.owner)

/-- The entry of `owner` at a location, if it is visible. -/
def visibleAt (visible : Nat → Bool) (symbol : ServiceSymbol) (location : ScopeId × FiberId) :
    Option ServiceEntry :=
  (entries location.1 symbol).filter fun e => e.owner = location.2 ∧ visible e.gate

/-- `cached_resolution`; `cached` is what the cache has for the symbol and the Scope that asks. -/
def cachedResolution (epoch : Nat) (visible : Nat → Bool) (symbol : ServiceSymbol) (cached : Option CacheEntry) :
    CacheLookup :=
  match cached with
  | none => .Miss
  | some cached =>
    if cached.epoch ≠ epoch then .Miss
    else match cached.location with
      | none => .Hit none
      | some location =>
        match entries.visibleAt visible symbol location with
        | some e => .Hit (some e)
        | none => .Miss

/-- The check at the start of `commit_revision_and_publish`. -/
def revisionIntact (p : PreparedServiceRevision) : Bool :=
  p.symbols.all fun symbol =>
    (entries p.source symbol).any (·.owner == p.stagedOwner) &&
      (entries p.target symbol).all (·.owner == p.oldOwner)

/-- The staged entries take the places of the old ones. -/
def replace (p : PreparedServiceRevision) : Entries := fun a k =>
  if k ∈ p.symbols then
    if a = p.target then (entries p.source k).map fun e => { e with scope := p.target }
    else if a = p.source then none
    else entries a k
  else entries a k

variable {entries} {visible : Nat → Bool} {symbol : ServiceSymbol} {location : ScopeId × FiberId} {e : ServiceEntry}

theorem visibleAt_eq_some : entries.visibleAt visible symbol location = some e ↔
    entries location.1 symbol = some e ∧ e.owner = location.2 ∧ visible e.gate = true := by
  simp [visibleAt, Option.filter_eq_some_iff]

end Entries

/-- `ServiceState` and the limit of its cache. The cache is in the order of `cache_order`, which has
the same keys. -/
structure ServiceState where
  entries : Entries
  epoch : Nat
  cache : List ((ScopeId × ServiceSymbol) × CacheEntry)
  maxCacheEntries : Nat

namespace ServiceState

variable (s : ServiceState) (gates : Gates)

/-- The epoch moves on, and the cache is cleared. -/
def bump : ServiceState := { s with epoch := (s.epoch + 1) % 2 ^ 64, cache := [] }

def insert (scope : ScopeId) (symbol : ServiceSymbol) (entry : ServiceEntry) : ServiceState :=
  bump { s with entries := s.entries.insert scope symbol entry }

def remove (scope : ScopeId) (symbol : ServiceSymbol) : ServiceState :=
  if (s.entries scope symbol).isSome then bump { s with entries := s.entries.remove scope symbol } else s

/-- `cached_resolution`. -/
def cachedResolution (requested : ScopeId) (symbol : ServiceSymbol) : CacheLookup :=
  s.entries.cachedResolution s.epoch gates.isVisible symbol (s.cache.lookup (requested, symbol))

def locate (ancestry : List ScopeId) (symbol : ServiceSymbol) : Option (ScopeId × FiberId) :=
  s.entries.locate (fun _ => gates.isVisible) ancestry symbol

/-- A location is cached; the oldest ones make room for a new key. -/
def remember (key : ScopeId × ServiceSymbol) (location : Option (ScopeId × FiberId)) : ServiceState :=
  if s.maxCacheEntries = 0 then s
  else if key ∈ s.cache.map (·.1) then
    { s with cache := s.cache.map fun p => if p.1 = key then (key, ⟨s.epoch, location⟩) else p }
  else
    { s with cache :=
        s.cache.drop (s.cache.length + 1 - s.maxCacheEntries) ++ [(key, ⟨s.epoch, location⟩)] }

/-- What the cache answers, when there is one. -/
def cached (requested : ScopeId) (symbol : ServiceSymbol) : CacheLookup :=
  if s.maxCacheEntries = 0 then .Miss else s.cachedResolution gates requested symbol

/-- The section of `resolve` under the write lock. -/
def resolve (requested : ScopeId) (ancestry : List ScopeId) (symbol : ServiceSymbol) :
    ServiceState × Option ServiceEntry :=
  match s.cached gates requested symbol with
  | .Hit entry => (s, entry)
  | .Miss =>
    let location := s.locate gates ancestry symbol
    (s.remember (requested, symbol) location,
      location.bind (s.entries.visibleAt gates.isVisible symbol))

/-- `resolve_owned`: the nearest entry of the caller itself that is not visible. -/
def resolveOwned (ancestry : List ScopeId) (symbol : ServiceSymbol) (owner : FiberId) :
    Option ServiceEntry :=
  ancestry.findSome? fun scope =>
    (s.entries scope symbol).filter fun e => e.owner = owner ∧ ¬ gates.isVisible e.gate

/-- The check before the cutover. -/
def revisionIntact (p : PreparedServiceRevision) : Bool := s.entries.revisionIntact p

def replace (p : PreparedServiceRevision) : ServiceState := bump { s with entries := s.entries.replace p }

/-! ## Resolution -/

variable {s gates} {requested scope : ScopeId} {ancestry : List ScopeId} {symbol : ServiceSymbol}
  {e : ServiceEntry}

/-- The cache does not say that there is nothing. -/
def Sound (s : ServiceState) (requested : ScopeId) (symbol : ServiceSymbol) : Prop :=
  ∀ c, ((requested, symbol), c) ∈ s.cache → c.epoch = s.epoch → c.location ≠ none

theorem sound_bump : s.bump.Sound requested symbol := by
  intro c hc
  cases hc

theorem cached_visible (h : s.cached gates requested symbol = .Hit (some e)) :
    gates.isVisible e.gate = true ∧ ∃ a, s.entries a symbol = some e := by
  unfold cached at h
  split_ifs at h
  unfold cachedResolution Entries.cachedResolution at h
  split at h
  · cases h
  · split_ifs at h
    split at h
    · cases h
    · split at h
      · rename_i hfilter
        cases h
        obtain ⟨hentry, -, hvisible⟩ := Entries.visibleAt_eq_some.mp hfilter
        exact ⟨hvisible, _, hentry⟩
      · cases h

theorem cached_ne_none (h : s.Sound requested symbol) : s.cached gates requested symbol ≠ .Hit none := by
  intro hc
  unfold cached at hc
  split_ifs at hc
  unfold cachedResolution Entries.cachedResolution at hc
  split at hc
  · cases hc
  · rename_i c hlook
    split_ifs at hc with hepoch
    rw [not_not] at hepoch
    split at hc
    · rename_i hnone
      obtain ⟨before, after, heq, -⟩ := List.lookup_eq_some_iff.mp hlook
      refine h c ?_ hepoch hnone
      rw [heq]
      exact List.mem_append_right _ (List.mem_cons_self ..)
    · split at hc <;> cases hc

theorem locate_isSome (hscope : scope ∈ ancestry) (hentry : s.entries scope symbol = some e)
    (hvisible : gates.isVisible e.gate = true) : (s.locate gates ancestry symbol).isSome := by
  unfold locate Entries.locate
  rw [List.findSome?_isSome_iff]
  refine ⟨scope, hscope, ?_⟩
  rw [hentry, Option.filter_some, if_pos hvisible]
  rfl

theorem locate_spec {p : ScopeId × FiberId} (h : s.locate gates ancestry symbol = some p) :
    ∃ e, s.entries p.1 symbol = some e ∧ e.owner = p.2 ∧ gates.isVisible e.gate = true := by
  obtain ⟨a, -, ha⟩ := List.exists_of_findSome?_eq_some h
  obtain ⟨e, he, rfl⟩ := Option.map_eq_some_iff.mp ha
  obtain ⟨hentry, hvisible⟩ := Option.filter_eq_some_iff.mp he
  exact ⟨e, hentry, rfl, hvisible⟩

theorem resolve_found (hsound : s.Sound requested symbol) (hscope : scope ∈ ancestry)
    (hentry : s.entries scope symbol = some e) (hvisible : gates.isVisible e.gate = true) :
    ∃ e' a, (s.resolve gates requested ancestry symbol).2 = some e' ∧ s.entries a symbol = some e' ∧
      gates.isVisible e'.gate = true := by
  unfold resolve
  cases hcached : s.cached gates requested symbol with
  | Hit entry =>
    cases entry with
    | none => exact absurd hcached (cached_ne_none hsound)
    | some e' =>
      obtain ⟨hvisible', a, ha⟩ := cached_visible hcached
      exact ⟨e', a, rfl, ha, hvisible'⟩
  | Miss =>
    obtain ⟨p, hp⟩ := Option.isSome_iff_exists.mp (locate_isSome hscope hentry hvisible)
    obtain ⟨e', he', howner, hvisible'⟩ := locate_spec hp
    refine ⟨e', p.1, ?_, he', hvisible'⟩
    simp only [hp, Option.bind_some]
    exact Entries.visibleAt_eq_some.mpr ⟨he', howner, hvisible'⟩

theorem mem_remember {key key' : ScopeId × ServiceSymbol} {location : Option (ScopeId × FiberId)}
    {c : CacheEntry} (h : (key', c) ∈ (s.remember key location).cache) :
    (key', c) ∈ s.cache ∨ key' = key ∧ c = ⟨s.epoch, location⟩ := by
  unfold remember at h
  split_ifs at h with hzero hkey
  · exact .inl h
  · obtain ⟨p, hp, heq⟩ := List.mem_map.mp h
    split_ifs at heq
    · cases heq
      exact .inr ⟨rfl, rfl⟩
    · exact .inl (heq ▸ hp)
  · rcases List.mem_append.mp h with hold | hnew
    · exact .inl (List.mem_of_mem_drop hold)
    · rw [List.mem_singleton] at hnew
      cases hnew
      exact .inr ⟨rfl, rfl⟩

theorem sound_resolve {requested' : ScopeId} {symbol' : ServiceSymbol}
    (hsound : s.Sound requested symbol)
    (hfound : requested' = requested → symbol' = symbol → (s.locate gates ancestry symbol').isSome) :
    (s.resolve gates requested' ancestry symbol').1.Sound requested symbol := by
  unfold resolve
  split
  · exact hsound
  · intro c hc hepoch
    have hsame : (s.remember (requested', symbol') (s.locate gates ancestry symbol')).epoch = s.epoch := by
      unfold remember
      split_ifs <;> rfl
    rcases mem_remember hc with hold | ⟨hkey, rfl⟩
    · exact hsound c hold (hepoch.trans hsame)
    · cases hkey
      exact Option.isSome_iff_ne_none.mp (hfound rfl rfl)

theorem resolve_entries (requested : ScopeId) (ancestry : List ScopeId) (symbol : ServiceSymbol) :
    (s.resolve gates requested ancestry symbol).1.entries = s.entries := by
  unfold resolve
  split
  · rfl
  · unfold remember
    split_ifs <;> rfl

theorem replace_entries {p : PreparedServiceRevision} (h : (s.replace p).entries scope symbol = some e) :
    ∃ a e', s.entries a symbol = some e' ∧ e'.owner = e.owner ∧ e'.gate = e.gate := by
  change (if symbol ∈ p.symbols then _ else _) = some e at h
  split_ifs at h
  · obtain ⟨e', he', rfl⟩ := Option.map_eq_some_iff.mp h
    exact ⟨_, e', he', rfl, rfl⟩
  · exact ⟨scope, e, h, rfl, rfl⟩
  · exact ⟨scope, e, h, rfl, rfl⟩

theorem replace_target {p : PreparedServiceRevision} (hsymbol : symbol ∈ p.symbols) :
    (s.replace p).entries p.target symbol =
      (s.entries p.source symbol).map fun e => { e with scope := p.target } := by
  show (if symbol ∈ p.symbols then _ else _) = _
  rw [if_pos hsymbol, if_pos rfl]

theorem remove_entries {a : ScopeId} {k : ServiceSymbol}
    (h : (s.remove a k).entries scope symbol = some e) : s.entries scope symbol = some e := by
  unfold remove at h
  split_ifs at h
  · change (if _ then _ else _) = some e at h
    split_ifs at h
    exact h
  · exact h

theorem remove_entries_ne {a : ScopeId} {k : ServiceSymbol} (hne : ¬ (scope = a ∧ symbol = k)) :
    (s.remove a k).entries scope symbol = s.entries scope symbol := by
  unfold remove
  split_ifs
  · exact if_neg hne
  · rfl

theorem sound_remove {a : ScopeId} {k : ServiceSymbol} (h : s.Sound requested symbol) :
    (s.remove a k).Sound requested symbol := by
  unfold remove
  split_ifs
  · exact sound_bump
  · exact h

theorem revisionIntact_spec {p : PreparedServiceRevision} (h : s.revisionIntact p = true)
    (hsymbol : symbol ∈ p.symbols) :
    ∃ e, s.entries p.source symbol = some e ∧ e.owner = p.stagedOwner := by
  unfold revisionIntact at h
  have hboth := List.all_eq_true.mp h symbol hsymbol
  rw [Bool.and_eq_true] at hboth
  cases he : s.entries p.source symbol with
  | none => simp [he] at hboth
  | some e =>
    rw [he] at hboth
    exact ⟨e, rfl, by simpa using hboth.1⟩

end ServiceState

/-! ## Ancestry -/

/-- `ScopeRegistry::ancestry` answers this chain for `scope`. -/
def isAncestry (parent : ScopeId → Option ScopeId) (scope : ScopeId) : List ScopeId → Bool
  | [] => false
  | a :: rest =>
    a == scope && match parent scope with
      | none => rest.isEmpty
      | some p => isAncestry parent p rest

/-- `scope` lies at or below `target`. -/
def Below (parent : ScopeId → Option ScopeId) (target scope : ScopeId) : Prop :=
  Relation.ReflTransGen (fun a b => parent a = some b) scope target

theorem mem_ancestry {parent : ScopeId → Option ScopeId} {target scope : ScopeId}
    {chain : List ScopeId} (hbelow : Below parent target scope)
    (hchain : isAncestry parent scope chain = true) : target ∈ chain := by
  induction chain generalizing scope with
  | nil => cases hchain
  | cons a rest ih =>
    simp only [isAncestry, Bool.and_eq_true, beq_iff_eq] at hchain
    obtain ⟨rfl, hrest⟩ := hchain
    rcases Relation.ReflTransGen.cases_head hbelow with rfl | ⟨p, hp, hup⟩
    · exact List.mem_cons_self ..
    · rw [hp] at hrest
      exact List.mem_cons_of_mem _ (ih hup hrest)

/-- The Scopes of `children` become children of `s`. -/
def adopt (parent : ScopeId → Option ScopeId) (children : List ScopeId) (s : ScopeId) :
    ScopeId → Option ScopeId :=
  fun a => if a ∈ children then some s else parent a

theorem below_adopt {parent : ScopeId → Option ScopeId} {children : List ScopeId}
    {target s scope : ScopeId} (hs : s ∉ children) (hparent : s = target ∨ parent s = some target)
    (h : Below parent target scope) : Below (adopt parent children s) target scope := by
  have hup : Below (adopt parent children s) target s := by
    rcases hparent with rfl | hparent
    · exact .refl
    · refine .single ?_
      unfold adopt
      rw [if_neg hs]
      exact hparent
  induction h using Relation.ReflTransGen.head_induction_on with
  | refl => exact .refl
  | head hstep _ ih =>
    rename_i a b _
    by_cases ha : a ∈ children
    · refine .head ?_ hup
      unfold adopt
      rw [if_pos ha]
    · refine .head ?_ ih
      unfold adopt
      rw [if_neg ha]
      exact hstep

end Services

end Cordis
