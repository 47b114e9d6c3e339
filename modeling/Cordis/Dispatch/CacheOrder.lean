import Cordis.Dispatch.Cache
import Cordis.Library.History
import Mathlib.Data.Finmap

/-!
# The map and the queue of the resolution cache

`ServiceState` with its cache as the source keeps it: `cache`, a map, and `cache_order`, a queue, which
separate statements change. `evict` is the loop of `resolve`; it goes on with an empty queue, so it runs
on fuel and answers nothing when the fuel does not suffice. Gates change while a call runs: a `Sight` is
what they answer at each place where a call of `resolve` looks at them.
-/

namespace Cordis.CacheOrder

open Machine
open Services (ServiceEntry CacheEntry CacheLookup Entries PreparedServiceRevision)

abbrev Key := ScopeId × ServiceSymbol

/-- `ServiceState`, less its interned keys. -/
structure ServiceState where
  entries : Entries
  epoch : Nat
  cache : Finmap fun _ : Key => CacheEntry
  cacheOrder : List Key

/-- `is_visible` at each place where a call of `resolve` asks it. -/
structure Sight where
  /-- The lookup under the read lock. -/
  shared : Nat → Bool
  /-- The lookup under the write lock. -/
  exclusive : Nat → Bool
  /-- The search along the ancestry. -/
  search : ScopeId → Nat → Bool
  /-- The entry at the location that was found. -/
  answer : Nat → Bool

namespace ServiceState

/-- `ServiceState::default`. -/
def new : ServiceState := ⟨fun _ _ => none, 0, ∅, []⟩

variable (s : ServiceState)

def bump : ServiceState :=
  { s with epoch := (s.epoch + 1) % 2 ^ 64, cache := ∅, cacheOrder := [] }

def insert (scope : ScopeId) (symbol : ServiceSymbol) (entry : ServiceEntry) : ServiceState :=
  bump { s with entries := s.entries.insert scope symbol entry }

def remove (scope : ScopeId) (symbol : ServiceSymbol) : ServiceState × Option ServiceEntry :=
  match s.entries scope symbol with
  | none => (s, none)
  | some v => (bump { s with entries := s.entries.remove scope symbol }, some v)

/-- The staged entries are taken out; the `expect` on a symbol without an entry panics. -/
def takeStaged (source : ScopeId) :
    List ServiceSymbol → Entries → Entries × Option (List (ServiceSymbol × ServiceEntry))
  | [], entries => (entries, some [])
  | symbol :: rest, entries =>
    match entries source symbol with
    | none => (entries, none)
    | some entry =>
      match takeStaged source rest (entries.remove source symbol) with
      | (entries, none) => (entries, none)
      | (entries, some taken) => (entries, some ((symbol, entry) :: taken))

/-- One staged entry is filed under the target. -/
def putStaged (target : ScopeId) (entries : Entries) (p : ServiceSymbol × ServiceEntry) : Entries :=
  entries.insert target p.1 p.2

/-- How a call of `commit_revision_and_publish` ends. -/
inductive Committed
  | returned (outcome : Outcome)
  | panicked

/-- `commit_revision_and_publish`; `cutover` is what `cutover_from` answers. -/
def commitRevisionAndPublish (p : PreparedServiceRevision) (cutover : Bool) :
    ServiceState × Committed :=
  if !s.entries.revisionIntact p then
    (s, .returned
      (.error (.RevisionValidationFailed "prepared service revision changed before commit")))
  else if !cutover then
    (s, .returned (.error (.CapabilityPublicationFailed p.stagedOwner)))
  else
    match takeStaged p.source p.symbols s.entries with
    | (entries, none) => ({ s with entries := entries }, .panicked)
    | (entries, some staged) =>
      (bump { s with entries := staged.foldl (putStaged p.target) entries }, .returned (.ok ()))

/-- What the cache answers, when there is one. -/
def cached (max : Nat) (visible : Nat → Bool) (requested : ScopeId) (symbol : ServiceSymbol) :
    CacheLookup :=
  if max = 0 then .Miss
  else s.entries.cachedResolution s.epoch visible symbol (s.cache.lookup (requested, symbol))

/-- `while cache.len() >= max`: the oldest key leaves, or nothing happens when the queue is empty. -/
def evict (max : Nat) : Nat → ServiceState → Option ServiceState
  | 0, _ => none
  | fuel + 1, s =>
    if max ≤ s.cache.keys.card then
      match s.cacheOrder with
      | oldest :: rest => evict max fuel { s with cache := s.cache.erase oldest, cacheOrder := rest }
      | [] => evict max fuel s
    else some s

/-- A location is cached; a new key is queued after the oldest ones made room for it. -/
def remember (max fuel : Nat) (key : Key) (location : Option (ScopeId × FiberId)) :
    Option ServiceState :=
  let entry : CacheEntry := ⟨s.epoch, location⟩
  if key ∈ s.cache then some { s with cache := s.cache.insert key entry }
  else (evict max fuel s).map fun s =>
    { s with cacheOrder := s.cacheOrder ++ [key], cache := s.cache.insert key entry }

/-- `resolve` under the write lock. -/
def resolveLocked (max fuel : Nat) (sight : Sight) (requested : ScopeId) (ancestry : List ScopeId)
    (symbol : ServiceSymbol) : Option (ServiceState × Option ServiceEntry) :=
  match s.cached max sight.exclusive requested symbol with
  | .Hit entry => some (s, entry)
  | .Miss =>
    let location := s.entries.locate sight.search ancestry symbol
    let kept := if max = 0 then some s else s.remember max fuel (requested, symbol) location
    kept.map fun s => (s, location.bind (s.entries.visibleAt sight.answer symbol))

/-- `resolve`. -/
def resolve (max fuel : Nat) (sight : Sight) (requested : ScopeId) (ancestry : List ScopeId)
    (symbol : ServiceSymbol) : Option (ServiceState × Option ServiceEntry) :=
  match s.cached max sight.shared requested symbol with
  | .Hit entry => some (s, entry)
  | .Miss => s.resolveLocked max fuel sight requested ancestry symbol

end ServiceState

/-! ## Calls -/

inductive Call
  | insert (scope : ScopeId) (symbol : ServiceSymbol) (entry : ServiceEntry)
  | remove (scope : ScopeId) (symbol : ServiceSymbol)
  | commitRevisionAndPublish (p : PreparedServiceRevision) (cutover : Bool)
  | bumpEpoch
  | resolve (requested : ScopeId) (ancestry : List ScopeId) (symbol : ServiceSymbol) (sight : Sight)
  /-- The rest of a `resolve` that missed under the read lock some calls ago. -/
  | resolveLocked (requested : ScopeId) (ancestry : List ScopeId) (symbol : ServiceSymbol)
      (sight : Sight)

/-- A call on the registry, with fuel for its loop; `none` when the loop is not left within it. -/
def step (max : Nat) (s : ServiceState) : Call × Nat → Option ServiceState
  | (.insert scope symbol entry, _) => some (s.insert scope symbol entry)
  | (.remove scope symbol, _) => some (s.remove scope symbol).1
  | (.commitRevisionAndPublish p cutover, _) => some (s.commitRevisionAndPublish p cutover).1
  | (.bumpEpoch, _) => some s.bump
  | (.resolve requested ancestry symbol sight, fuel) =>
    (s.resolve max fuel sight requested ancestry symbol).map (·.1)
  | (.resolveLocked requested ancestry symbol sight, fuel) =>
    (s.resolveLocked max fuel sight requested ancestry symbol).map (·.1)

/-- What a call means for the cache. -/
inductive Event
  | bumped
  | inserted (key : Key)
  deriving DecidableEq

/-- The key that a call may insert. -/
def Call.key? : Call → Option Key
  | .resolve requested _ symbol _ | .resolveLocked requested _ symbol _ => some (requested, symbol)
  | _ => none

/-- A bump is seen by the epoch, an insertion by a key that was absent. -/
def note (s : ServiceState) (a : Call × Nat) (t : ServiceState) : List Event :=
  if t.epoch ≠ s.epoch then [.bumped]
  else match a.1.key? with
    | some key => if key ∉ s.cache ∧ key ∈ t.cache then [.inserted key] else []
    | none => []

/-- The keys inserted since the last bump, in order. -/
def insertions (log : List Event) : List Key :=
  log.foldl (fun keys event => match event with
    | .bumped => []
    | .inserted key => keys ++ [key]) []

/-! ## The loop -/

/-- The queue lists the keys of the map, each once. -/
structure Listed (s : ServiceState) : Prop where
  nodup : s.cacheOrder.Nodup
  keys : ∀ key, key ∈ s.cacheOrder ↔ key ∈ s.cache

theorem Listed.card {s : ServiceState} (h : Listed s) : s.cache.keys.card = s.cacheOrder.length := by
  have hkeys : s.cache.keys = s.cacheOrder.toFinset := by
    ext key
    rw [Finmap.mem_keys, List.mem_toFinset, h.keys]
  rw [hkeys, List.toFinset_card_of_nodup h.nodup]

theorem Listed.evictOne {s : ServiceState} {oldest : Key} {rest : List Key} (h : Listed s)
    (ho : s.cacheOrder = oldest :: rest) :
    Listed { s with cache := s.cache.erase oldest, cacheOrder := rest } := by
  have hnodup := h.nodup
  rw [ho, List.nodup_cons] at hnodup
  refine ⟨hnodup.2, ?_⟩
  intro key
  have hkeys := h.keys key
  rw [ho, List.mem_cons] at hkeys
  change key ∈ rest ↔ key ∈ s.cache.erase oldest
  rw [Finmap.mem_erase, ← hkeys]
  constructor
  · intro hin
    exact ⟨fun heq => hnodup.1 (heq ▸ hin), .inr hin⟩
  · rintro ⟨hne, hin⟩
    exact hin.resolve_left hne

namespace ServiceState

variable {max fuel : Nat} {s t : ServiceState} {key : Key} {location : Option (ScopeId × FiberId)}

/-- How many keys leave before a new one is queued. -/
def surplus (max : Nat) (s : ServiceState) : Nat := s.cacheOrder.length + 1 - max

/-- Where the loop is left: the oldest keys are gone. -/
def evicted (max : Nat) (s : ServiceState) : ServiceState :=
  { s with
    cacheOrder := s.cacheOrder.drop (surplus max s)
    cache := (s.cacheOrder.take (surplus max s)).foldl (fun cache key => cache.erase key) s.cache }

/-- As long as the queue lists the keys, every turn shortens it, and the loop is left in time. -/
theorem evict_eq (hmax : 0 < max) (h : Listed s) (hfuel : s.cacheOrder.length < fuel) :
    evict max fuel s = some (s.evicted max) := by
  induction fuel generalizing s with
  | zero => omega
  | succ fuel ih =>
    rw [evict, h.card]
    cases ho : s.cacheOrder with
    | nil =>
      rw [List.length_nil, if_neg (Nat.not_le.mpr hmax)]
      simp only [evicted, ho, List.drop_nil, List.take_nil, List.foldl_nil]
      rw [← ho]
    | cons oldest rest =>
      rw [ho, List.length_cons] at hfuel
      split
      · rename_i hfull
        rw [List.length_cons] at hfull
        have hone : surplus max s = surplus max
            { s with cache := s.cache.erase oldest, cacheOrder := rest } + 1 := by
          simp only [surplus, ho, List.length_cons]
          omega
        change evict max fuel { s with cache := s.cache.erase oldest, cacheOrder := rest } = _
        rw [ih (h.evictOne ho) (by simpa using hfuel)]
        simp only [evicted, hone, ho, List.drop_succ_cons, List.take_succ_cons, List.foldl_cons]
      · rename_i hroom
        rw [List.length_cons] at hroom
        have hnone : surplus max s = 0 := by
          simp only [surplus, ho, List.length_cons]
          omega
        simp only [evicted, hnone, List.drop_zero, List.take_zero, List.foldl_nil]

/-- A loop that is left is left in the same way with more fuel. -/
theorem evict_mono (h : evict max fuel s = some t) (more : Nat) : evict max (fuel + more) s = some t := by
  induction fuel generalizing s with
  | zero => cases h
  | succ fuel ih =>
    rw [Nat.succ_add, evict]
    rw [evict] at h
    split at h
    · rename_i hfull
      rw [if_pos hfull]
      cases ho : s.cacheOrder with
      | nil =>
        rw [ho] at h
        exact ih h
      | cons oldest rest =>
        rw [ho] at h
        exact ih h
    · rename_i hroom
      rw [if_neg hroom]
      exact h

theorem evict_some (hmax : 0 < max) (h : Listed s) (hs : evict max fuel s = some t) :
    t = s.evicted max := by
  have hmore := evict_mono hs (s.cacheOrder.length + 1)
  rw [evict_eq hmax h (by omega)] at hmore
  exact (Option.some.inj hmore).symm

theorem lookup_foldl_erase (keys : List Key) (cache : Finmap fun _ : Key => CacheEntry) (key : Key) :
    (keys.foldl (fun cache key => cache.erase key) cache).lookup key =
      if key ∈ keys then none else cache.lookup key := by
  induction keys generalizing cache with
  | nil => simp
  | cons k keys ih =>
    rw [List.foldl_cons, ih]
    by_cases hk : key = k
    · subst hk
      simp
    · simp [hk, Finmap.lookup_erase_ne hk]

theorem lookup_evicted (h : Listed s) : (s.evicted max).cache.lookup key =
    if key ∈ (s.evicted max).cacheOrder then s.cache.lookup key else none := by
  have hsplit := List.take_append_drop (surplus max s) s.cacheOrder
  have hdisjoint : key ∈ s.cacheOrder.take (surplus max s) → key ∉ s.cacheOrder.drop (surplus max s) :=
    fun htake hdrop => (List.nodup_append.mp (hsplit.symm ▸ h.nodup)).2.2 key htake key hdrop rfl
  change Finmap.lookup key (List.foldl _ s.cache _) =
    if key ∈ s.cacheOrder.drop (surplus max s) then s.cache.lookup key else none
  rw [lookup_foldl_erase]
  by_cases htake : key ∈ s.cacheOrder.take (surplus max s)
  · rw [if_pos htake, if_neg (hdisjoint htake)]
  · rw [if_neg htake]
    split
    · rfl
    · rename_i hdrop
      rw [Finmap.lookup_eq_none, ← h.keys, ← hsplit, List.mem_append]
      exact not_or.mpr ⟨htake, hdrop⟩

theorem listed_evicted (h : Listed s) : Listed (s.evicted max) := by
  refine ⟨h.nodup.sublist (List.drop_sublist ..), ?_⟩
  intro key
  rw [← Finmap.lookup_isSome, lookup_evicted h]
  split
  · rename_i hin
    have hold : key ∈ s.cache := (h.keys key).mp (List.mem_of_mem_drop hin)
    exact ⟨fun _ => Finmap.lookup_isSome.mpr hold, fun _ => hin⟩
  · rename_i hout
    exact ⟨fun hin => absurd hin hout, fun hsome => by cases hsome⟩

theorem length_evicted (hmax : 0 < max) : (s.evicted max).cacheOrder.length < max := by
  simp only [evicted, surplus, List.length_drop]
  omega

/-- The state after a location was cached. -/
def remembered (max : Nat) (s : ServiceState) (key : Key) (location : Option (ScopeId × FiberId)) :
    ServiceState :=
  let entry : CacheEntry := ⟨s.epoch, location⟩
  if key ∈ s.cache then { s with cache := s.cache.insert key entry }
  else { s with
    cacheOrder := (s.evicted max).cacheOrder ++ [key]
    cache := (s.evicted max).cache.insert key entry }

theorem remember_eq (hmax : 0 < max) (h : Listed s) (hfuel : s.cacheOrder.length < fuel) :
    s.remember max fuel key location = some (s.remembered max key location) := by
  unfold remember remembered
  simp only
  split
  · rfl
  · rw [evict_eq hmax h hfuel]
    rfl

theorem remember_some (hmax : 0 < max) (h : Listed s)
    (ht : s.remember max fuel key location = some t) : t = s.remembered max key location := by
  unfold remember at ht
  unfold remembered
  simp only at ht ⊢
  split at ht
  · rename_i hin
    rw [if_pos hin]
    exact (Option.some.inj ht).symm
  · rename_i hout
    obtain ⟨e, he, rfl⟩ := Option.map_eq_some_iff.mp ht
    rw [if_neg hout, evict_some hmax h he]
    rfl

end ServiceState

/-! ## The invariant -/

/-- What holds of the map and the queue between calls. -/
structure Ordered (max : Nat) (s : ServiceState) : Prop extends Listed s where
  current : ∀ key c, s.cache.lookup key = some c → c.epoch = s.epoch
  bounded : s.cacheOrder.length ≤ max
  epoch : s.epoch < 2 ^ 64

variable {max fuel : Nat} {s t : ServiceState} {key : Key} {location : Option (ScopeId × FiberId)}

theorem ordered_of_empty (hcache : s.cache = ∅) (horder : s.cacheOrder = []) (hepoch : s.epoch < 2 ^ 64) :
    Ordered max s := by
  refine ⟨⟨?_, ?_⟩, ?_, ?_, hepoch⟩
  · rw [horder]
    exact List.nodup_nil
  · intro key
    rw [horder, hcache]
    exact ⟨fun h => absurd h List.not_mem_nil, fun h => absurd h Finmap.notMem_empty⟩
  · intro key c h
    rw [hcache, Finmap.lookup_empty] at h
    cases h
  · rw [horder]
    exact Nat.zero_le _

theorem Ordered.remembered (hmax : 0 < max) (h : Ordered max s) :
    Ordered max (s.remembered max key location) := by
  unfold ServiceState.remembered
  simp only
  split
  · -- a stale location is overwritten in its place
    rename_i hin
    refine ⟨⟨h.nodup, ?_⟩, ?_, h.bounded, h.epoch⟩
    · intro key'
      rw [h.keys, Finmap.mem_insert]
      exact ⟨.inr, fun hor => hor.elim (fun heq => heq ▸ hin) id⟩
    · intro key' c hc
      by_cases heq : key' = key
      · subst heq
        rw [Finmap.lookup_insert] at hc
        cases hc
        rfl
      · rw [Finmap.lookup_insert_of_ne _ heq] at hc
        exact h.current key' c hc
  · rename_i hout
    have hev : Listed (s.evicted max) := ServiceState.listed_evicted h.toListed
    have hfresh : key ∉ (s.evicted max).cacheOrder := by
      intro hin
      exact hout ((h.keys key).mp (List.mem_of_mem_drop hin))
    have hlen : (s.evicted max).cacheOrder.length < max := ServiceState.length_evicted hmax
    refine ⟨⟨?_, ?_⟩, ?_, ?_, h.epoch⟩
    · refine hev.nodup.append (List.nodup_singleton key) ?_
      simpa using hfresh
    · intro key'
      rw [List.mem_append, hev.keys, List.mem_singleton, Finmap.mem_insert, or_comm]
    · intro key' c hc
      by_cases heq : key' = key
      · subst heq
        rw [Finmap.lookup_insert] at hc
        cases hc
        rfl
      · rw [Finmap.lookup_insert_of_ne _ heq, ServiceState.lookup_evicted h.toListed] at hc
        split at hc
        · exact h.current key' c hc
        · cases hc
    · simp only [List.length_append, List.length_singleton]
      omega

/-! ## What a call does -/

/-- The cache, its queue and its epoch are left alone. -/
structure Same (s t : ServiceState) : Prop where
  epoch : t.epoch = s.epoch
  cache : t.cache = s.cache
  order : t.cacheOrder = s.cacheOrder

/-- The epoch moves on and the cache is cleared. -/
structure Bumped (s t : ServiceState) : Prop where
  epoch : t.epoch = (s.epoch + 1) % 2 ^ 64
  cache : t.cache = ∅
  order : t.cacheOrder = []

theorem resolveLocked_cases (h : Listed s) {sight : Sight} {requested : ScopeId}
    {ancestry : List ScopeId} {symbol : ServiceSymbol} {answer : Option ServiceEntry}
    (ht : s.resolveLocked max fuel sight requested ancestry symbol = some (t, answer)) :
    t = s ∨ 0 < max ∧ ∃ location, t = s.remembered max (requested, symbol) location := by
  unfold ServiceState.resolveLocked at ht
  split at ht
  · cases ht
    exact .inl rfl
  · simp only at ht
    obtain ⟨kept, hkept, heq⟩ := Option.map_eq_some_iff.mp ht
    cases heq
    split at hkept
    · cases hkept
      exact .inl rfl
    · rename_i hmax
      have hpos : 0 < max := Nat.pos_of_ne_zero hmax
      exact .inr ⟨hpos, _, ServiceState.remember_some hpos h hkept⟩

theorem resolve_cases (h : Listed s) {sight : Sight} {requested : ScopeId} {ancestry : List ScopeId}
    {symbol : ServiceSymbol} {answer : Option ServiceEntry}
    (ht : s.resolve max fuel sight requested ancestry symbol = some (t, answer)) :
    t = s ∨ 0 < max ∧ ∃ location, t = s.remembered max (requested, symbol) location := by
  unfold ServiceState.resolve at ht
  split at ht
  · cases ht
    exact .inl rfl
  · exact resolveLocked_cases h ht

theorem commit_cases (s : ServiceState) (p : PreparedServiceRevision) (cutover : Bool) :
    Same s (s.commitRevisionAndPublish p cutover).1 ∨
      Bumped s (s.commitRevisionAndPublish p cutover).1 := by
  unfold ServiceState.commitRevisionAndPublish
  split
  · exact .inl ⟨rfl, rfl, rfl⟩
  · split
    · exact .inl ⟨rfl, rfl, rfl⟩
    · split
      · exact .inl ⟨rfl, rfl, rfl⟩
      · exact .inr ⟨rfl, rfl, rfl⟩

theorem remove_cases (s : ServiceState) (scope : ScopeId) (symbol : ServiceSymbol) :
    Same s (s.remove scope symbol).1 ∨ Bumped s (s.remove scope symbol).1 := by
  unfold ServiceState.remove
  split
  · exact .inl ⟨rfl, rfl, rfl⟩
  · exact .inr ⟨rfl, rfl, rfl⟩

theorem step_cases (h : Listed s) {a : Call × Nat} (ht : step max s a = some t) :
    Same s t ∨ Bumped s t ∨
      0 < max ∧ ∃ key location, a.1.key? = some key ∧ t = s.remembered max key location := by
  obtain ⟨call, fuel⟩ := a
  cases call with
  | insert scope symbol entry =>
    cases ht
    exact .inr (.inl ⟨rfl, rfl, rfl⟩)
  | remove scope symbol =>
    cases ht
    exact (remove_cases s scope symbol).imp_right .inl
  | commitRevisionAndPublish p cutover =>
    cases ht
    exact (commit_cases s p cutover).imp_right .inl
  | bumpEpoch =>
    cases ht
    exact .inr (.inl ⟨rfl, rfl, rfl⟩)
  | resolve requested ancestry symbol sight =>
    obtain ⟨⟨t', answer⟩, hcall, rfl⟩ := Option.map_eq_some_iff.mp ht
    obtain rfl | ⟨hpos, location, rfl⟩ := resolve_cases h hcall
    · exact .inl ⟨rfl, rfl, rfl⟩
    · exact .inr (.inr ⟨hpos, _, location, rfl, rfl⟩)
  | resolveLocked requested ancestry symbol sight =>
    obtain ⟨⟨t', answer⟩, hcall, rfl⟩ := Option.map_eq_some_iff.mp ht
    obtain rfl | ⟨hpos, location, rfl⟩ := resolveLocked_cases h hcall
    · exact .inl ⟨rfl, rfl, rfl⟩
    · exact .inr (.inr ⟨hpos, _, location, rfl, rfl⟩)

theorem Ordered.step {a : Call × Nat} (h : Ordered max s) (ht : step max s a = some t) :
    Ordered max t := by
  obtain hsame | hbumped | ⟨hpos, key, location, -, rfl⟩ := step_cases h.toListed ht
  · refine ⟨⟨?_, ?_⟩, ?_, ?_, ?_⟩
    · rw [hsame.order]
      exact h.nodup
    · rw [hsame.order, hsame.cache]
      exact h.keys
    · rw [hsame.cache, hsame.epoch]
      exact h.current
    · rw [hsame.order]
      exact h.bounded
    · rw [hsame.epoch]
      exact h.epoch
  · exact ordered_of_empty hbumped.cache hbumped.order
      (hbumped.epoch ▸ Nat.mod_lt _ (Nat.two_pow_pos 64))
  · exact h.remembered hpos

/-! ## Every call returns -/

theorem resolveLocked_returns (h : Ordered max s) (sight : Sight) (requested : ScopeId)
    (ancestry : List ScopeId) (symbol : ServiceSymbol) :
    ∃ r, ∀ fuel > s.cacheOrder.length,
      s.resolveLocked max fuel sight requested ancestry symbol = some r := by
  unfold ServiceState.resolveLocked
  split
  · exact ⟨_, fun _ _ => rfl⟩
  · obtain ⟨t, ht⟩ : ∃ t, ∀ fuel > s.cacheOrder.length, (if max = 0 then some s else
        s.remember max fuel (requested, symbol) (s.entries.locate sight.search ancestry symbol)) = some t := by
      by_cases hmax : max = 0
      · exact ⟨s, fun _ _ => if_pos hmax⟩
      · refine ⟨s.remembered max (requested, symbol) (s.entries.locate sight.search ancestry symbol), ?_⟩
        intro fuel hfuel
        rw [if_neg hmax]
        exact ServiceState.remember_eq (Nat.pos_of_ne_zero hmax) h.toListed hfuel
    exact ⟨_, fun fuel hfuel => congrArg (Option.map _) (ht fuel hfuel)⟩

theorem step_returns (h : Ordered max s) (call : Call) :
    ∃ n t, ∀ fuel ≥ n, step max s (call, fuel) = some t := by
  cases call with
  | resolve requested ancestry symbol sight =>
    obtain ⟨r, hr⟩ := resolveLocked_returns h sight requested ancestry symbol
    cases hcached : s.cached max sight.shared requested symbol with
    | Hit entry => exact ⟨0, s, fun fuel _ => by simp [step, ServiceState.resolve, hcached]⟩
    | Miss =>
      refine ⟨s.cacheOrder.length + 1, r.1, fun fuel hfuel => ?_⟩
      simp [step, ServiceState.resolve, hcached, hr fuel hfuel]
  | resolveLocked requested ancestry symbol sight =>
    obtain ⟨r, hr⟩ := resolveLocked_returns h sight requested ancestry symbol
    refine ⟨s.cacheOrder.length + 1, r.1, fun fuel hfuel => ?_⟩
    simp [step, hr fuel hfuel]
  | insert scope symbol entry => exact ⟨0, _, fun _ _ => rfl⟩
  | remove scope symbol => exact ⟨0, _, fun _ _ => rfl⟩
  | commitRevisionAndPublish p cutover => exact ⟨0, _, fun _ _ => rfl⟩
  | bumpEpoch => exact ⟨0, _, fun _ _ => rfl⟩

/-! ## The order of the queue -/

theorem insertions_inserted (log : List Event) (key : Key) :
    insertions (log ++ [.inserted key]) = insertions log ++ [key] := by
  simp [insertions]

theorem order_step {a : Call × Nat} {log : List Event} (h : Ordered max s)
    (horder : s.cacheOrder <:+ insertions log) (ht : step max s a = some t) :
    t.cacheOrder <:+ insertions (log ++ note s a t) := by
  obtain hsame | hbumped | ⟨hpos, key, location, hkey, rfl⟩ := step_cases h.toListed ht
  · have hnone : note s a t = [] := by
      rw [note, if_neg (by simpa using hsame.epoch)]
      split
      · rw [hsame.cache, if_neg (by tauto)]
      · rfl
    rw [hnone, List.append_nil, hsame.order]
    exact horder
  · rw [hbumped.order]
    exact List.nil_suffix
  · have hepoch : (s.remembered max key location).epoch = s.epoch := by
      unfold ServiceState.remembered
      simp only
      split <;> rfl
    rw [note, if_neg (by simpa using hepoch), hkey]
    by_cases hin : key ∈ s.cache
    · have horder' : (s.remembered max key location).cacheOrder = s.cacheOrder := by
        simp only [ServiceState.remembered, if_pos hin]
      rw [horder']
      simp only [hin, not_true_eq_false, false_and, if_false, List.append_nil]
      exact horder
    · have hnew : key ∈ (s.remembered max key location).cache := by
        simp only [ServiceState.remembered, if_neg hin, Finmap.mem_insert, true_or]
      have horder' : (s.remembered max key location).cacheOrder =
          s.cacheOrder.drop (s.surplus max) ++ [key] := by
        simp only [ServiceState.remembered, if_neg hin, ServiceState.evicted]
      simp only [hin, hnew, not_false_eq_true, true_and, if_true]
      rw [insertions_inserted, horder']
      exact List.suffix_append_self_iff.mpr ((List.drop_suffix _ _).trans horder)

theorem ordered_reach {log : List Event}
    (h : Reach (recording (step max) note) anyStep (ServiceState.new, []) (s, log)) :
    Ordered max s ∧ s.cacheOrder <:+ insertions log := by
  refine h.invariant (I := fun p => Ordered max p.1 ∧ p.1.cacheOrder <:+ insertions p.2) ?_ ?_
  · exact ⟨ordered_of_empty rfl rfl (by decide), List.nil_suffix⟩
  · rintro ⟨s, log⟩ a ⟨t, log'⟩ ⟨hordered, horder⟩ - ht
    obtain ⟨hstep, hlog⟩ := recording_eq_some ht
    refine ⟨hordered.step hstep, ?_⟩
    rw [hlog]
    exact order_step hordered horder hstep

theorem order_of_nodup {log : List Event} (h : Listed s) (horder : s.cacheOrder <:+ insertions log)
    (hnodup : (insertions log).Nodup) :
    s.cacheOrder = (insertions log).filter fun key => key ∈ s.cache := by
  obtain ⟨gone, hgone⟩ := horder
  rw [← hgone] at hnodup ⊢
  rw [List.filter_append]
  have hout : gone.filter (fun key => key ∈ s.cache) = [] := by
    apply List.filter_eq_nil_iff.mpr
    intro key hin
    have hnot : key ∉ s.cacheOrder := fun hin' => (List.nodup_append.mp hnodup).2.2 key hin key hin' rfl
    simpa [← h.keys] using hnot
  have hall : s.cacheOrder.filter (fun key => key ∈ s.cache) = s.cacheOrder := by
    apply List.filter_eq_self.mpr
    intro key hin
    simpa [← h.keys] using hin
  rw [hout, hall, List.nil_append]

/-- In every state that calls lead to, with any capacity: the queue lists the keys of the cache, each
once, and is the end of the record of insertions since the last bump, which without a second insertion
of a key is the order of first insertion; cached epochs are the registry's, the cache is within its
capacity, and every call returns. -/
theorem cache_order_agrees (max : Nat) (s : ServiceState) (log : List Event)
    (h : Reach (recording (step max) note) anyStep (ServiceState.new, []) (s, log)) :
    s.cacheOrder.Nodup ∧ (∀ key, key ∈ s.cacheOrder ↔ key ∈ s.cache) ∧
      s.cacheOrder <:+ insertions log ∧
      ((insertions log).Nodup → s.cacheOrder = (insertions log).filter fun key => key ∈ s.cache) ∧
      (∀ key c, s.cache.lookup key = some c → c.epoch = s.epoch) ∧
      s.cache.keys.card ≤ max ∧
      ∀ call, ∃ n t, ∀ fuel ≥ n, step max s (call, fuel) = some t := by
  obtain ⟨hordered, horder⟩ := ordered_reach h
  refine ⟨hordered.nodup, hordered.keys, horder, order_of_nodup hordered.toListed horder,
    hordered.current, ?_, step_returns hordered⟩
  rw [hordered.card]
  exact hordered.bounded

/-- A resolution from Scope `scope` that finds nothing. -/
def missing (scope : ScopeId) : Call × Nat :=
  (.resolve scope [] 0 ⟨fun _ => false, fun _ => false, fun _ _ => false, fun _ => false⟩, 3)

/-- Three keys through a cache for two, then the first one again. -/
def reinserted : Option (ServiceState × List Event) :=
  run (recording (step 2) note) (ServiceState.new, []) [missing 1, missing 2, missing 3, missing 1]

theorem reinserted_order : reinserted.map (fun p => (p.1.cacheOrder, insertions p.2)) =
    some ([(3, 0), (1, 0)], [(1, 0), (2, 0), (3, 0), (1, 0)]) := by
  decide

/-- On that run. -/
theorem cache_order_agrees_reinserted : ∃ s log, reinserted = some (s, log) ∧
    s.cacheOrder <:+ insertions log ∧ s.cache.keys.card ≤ 2 ∧
      ∀ call, ∃ n t, ∀ fuel ≥ n, step 2 s (call, fuel) = some t := by
  obtain ⟨⟨s, log⟩, hrun⟩ : ∃ p, reinserted = some p := ⟨_, rfl⟩
  have h := cache_order_agrees 2 s log (reach_of_run hrun)
  exact ⟨s, log, hrun, h.2.2.1, h.2.2.2.2.2.1, h.2.2.2.2.2.2⟩

/-- A key that was evicted and inserted again stands after keys that were first inserted later. -/
theorem order_not_first_insertion : ¬ ∀ max s log,
    Reach (recording (step max) note) anyStep (ServiceState.new, []) (s, log) →
      s.cacheOrder = (insertions log).eraseDups.filter fun key => key ∈ s.cache := by
  intro h
  obtain ⟨⟨s, log⟩, hrun⟩ : ∃ p, reinserted = some p := ⟨_, rfl⟩
  have hreach := reach_of_run hrun
  have hlisted := (ordered_reach hreach).1.toListed
  have horder := reinserted_order
  rw [hrun, Option.map_some, Option.some.injEq, Prod.mk.injEq] at horder
  have hfirst := h 2 s log hreach
  have hkept : (insertions log).eraseDups.filter (fun key => key ∈ s.cache) = [(1, 0), (3, 0)] := by
    have hfilter : (fun key => decide (key ∈ s.cache)) =
        fun key : Key => decide (key ∈ [(3, 0), (1, 0)]) := by
      funext key
      rw [← horder.1]
      exact decide_eq_decide.mpr (hlisted.keys key).symm
    rw [horder.2, hfilter]
    decide
  rw [hkept, horder.1] at hfirst
  exact absurd hfirst (by decide)

end Cordis.CacheOrder
