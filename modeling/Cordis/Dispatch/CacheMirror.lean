import Cordis.Dispatch.CacheOrder

/-!
# The cache as one list

The cache of `Services` is one list of keys with their entries. Between calls the map and the queue are
such a list, `mirror`, and every call does on them what it does on the list.
-/

namespace Cordis.CacheOrder

open Services (ServiceEntry CacheEntry CacheLookup Entries PreparedServiceRevision)

variable {max fuel : Nat} {s t : ServiceState} {key : Key} {location : Option (ScopeId × FiberId)}

/-- The entry of a key in the queue. -/
def ServiceState.entry? (s : ServiceState) (key : Key) : Option (Key × CacheEntry) :=
  (s.cache.lookup key).map fun c => (key, c)

/-- The entries of the cache in the order of its queue. -/
def mirror (max : Nat) (s : ServiceState) : Services.ServiceState where
  entries := s.entries
  epoch := s.epoch
  cache := s.cacheOrder.filterMap s.entry?
  maxCacheEntries := max

/-- The gates do not change during the call. -/
def Sight.steady (gates : Gates) : Sight :=
  ⟨gates.isVisible, gates.isVisible, fun _ => gates.isVisible, gates.isVisible⟩

theorem lookup_filterMap (s : ServiceState) (keys : List Key) (key : Key) :
    (keys.filterMap s.entry?).lookup key = if key ∈ keys then s.cache.lookup key else none := by
  induction keys with
  | nil => rfl
  | cons k keys ih =>
    rw [List.filterMap_cons]
    by_cases hk : key = k
    · subst hk
      cases hc : s.cache.lookup key with
      | none => simp [ServiceState.entry?, hc, ih]
      | some c => simp [ServiceState.entry?, hc]
    · have hbeq : (key == k) = false := beq_eq_false_iff_ne.mpr hk
      cases hc : s.cache.lookup k with
      | none => simp [ServiceState.entry?, hc, ih, hk]
      | some c => simp [ServiceState.entry?, hc, List.lookup_cons, hbeq, hk, ih]

theorem lookup_mirror (h : Listed s) (key : Key) :
    (mirror max s).cache.lookup key = s.cache.lookup key := by
  change (s.cacheOrder.filterMap s.entry?).lookup key = _
  rw [lookup_filterMap]
  split
  · rfl
  · rename_i hout
    rw [h.keys] at hout
    exact (Finmap.lookup_eq_none.mpr hout).symm

theorem entry?_isSome (h : Listed s) (hin : key ∈ s.cacheOrder) : (s.entry? key).isSome = true := by
  rw [ServiceState.entry?, Option.isSome_map]
  exact Finmap.lookup_isSome.mpr ((h.keys key).mp hin)

theorem drop_filterMap {α β : Type} {f : α → Option β} {l : List α}
    (h : ∀ a ∈ l, (f a).isSome = true) (n : Nat) :
    (l.filterMap f).drop n = (l.drop n).filterMap f := by
  induction l generalizing n with
  | nil => simp
  | cons a l ih =>
    obtain ⟨b, hb⟩ := Option.isSome_iff_exists.mp (h a (List.mem_cons_self ..))
    cases n with
    | zero => rfl
    | succ n =>
      rw [List.filterMap_cons, hb, List.drop_succ_cons, List.drop_succ_cons]
      exact ih (fun x hx => h x (List.mem_cons_of_mem a hx)) n

theorem length_filterMap {α β : Type} {f : α → Option β} {l : List α}
    (h : ∀ a ∈ l, (f a).isSome = true) : (l.filterMap f).length = l.length := by
  induction l with
  | nil => rfl
  | cons a l ih =>
    obtain ⟨b, hb⟩ := Option.isSome_iff_exists.mp (h a (List.mem_cons_self ..))
    rw [List.filterMap_cons, hb, List.length_cons, List.length_cons,
      ih fun x hx => h x (List.mem_cons_of_mem a hx)]

theorem mem_mirror (h : Listed s) (key : Key) :
    key ∈ (mirror max s).cache.map (·.1) ↔ key ∈ s.cache := by
  rw [← h.keys]
  change key ∈ (s.cacheOrder.filterMap s.entry?).map (·.1) ↔ _
  constructor
  · intro hin
    obtain ⟨⟨k, c⟩, hkc, rfl⟩ := List.mem_map.mp hin
    obtain ⟨k', hk', hentry⟩ := List.mem_filterMap.mp hkc
    obtain ⟨c', -, heq⟩ := Option.map_eq_some_iff.mp hentry
    cases heq
    exact hk'
  · intro hin
    obtain ⟨p, hp⟩ := Option.isSome_iff_exists.mp (entry?_isSome h hin)
    obtain ⟨c, -, rfl⟩ := Option.map_eq_some_iff.mp hp
    exact List.mem_map.mpr ⟨(key, c), List.mem_filterMap.mpr ⟨key, hin, hp⟩, rfl⟩

/-! ## Resolution -/

theorem cached_mirror (h : Listed s) (gates : Gates) (requested : ScopeId) (symbol : ServiceSymbol) :
    (mirror max s).cached gates requested symbol =
      s.cached max gates.isVisible requested symbol := by
  unfold Services.ServiceState.cached ServiceState.cached
  unfold Services.ServiceState.cachedResolution
  rw [lookup_mirror h]
  rfl

theorem remember_mirror (hmax : 0 < max) (h : Listed s) :
    mirror max (s.remembered max key location) = (mirror max s).remember key location := by
  unfold Services.ServiceState.remember
  rw [if_neg (show ¬ (mirror max s).maxCacheEntries = 0 from Nat.pos_iff_ne_zero.mp hmax)]
  by_cases hin : key ∈ s.cache
  · rw [if_pos ((mem_mirror h key).mpr hin)]
    simp only [ServiceState.remembered, if_pos hin, mirror, List.map_filterMap]
    congr 1
    apply List.filterMap_congr
    intro k _
    by_cases hk : k = key
    · subst hk
      obtain ⟨c, hc⟩ := Option.isSome_iff_exists.mp (Finmap.lookup_isSome.mpr hin)
      simp [ServiceState.entry?, hc]
    · cases hc : s.cache.lookup k <;>
        simp [ServiceState.entry?, Finmap.lookup_insert_of_ne _ hk, hc, hk]
  · rw [if_neg (mt (mem_mirror h key).mp hin)]
    have hall : ∀ k ∈ s.cacheOrder, (s.entry? k).isSome = true := fun k hk => entry?_isSome h hk
    simp only [ServiceState.remembered, if_neg hin, mirror, List.filterMap_append,
      length_filterMap hall, drop_filterMap hall]
    congr 2
    · apply List.filterMap_congr
      intro k hk
      have hne : k ≠ key := fun heq => hin (heq ▸ (h.keys k).mp (List.mem_of_mem_drop hk))
      have hkept : (s.evicted max).cache.lookup k = s.cache.lookup k := by
        rw [ServiceState.lookup_evicted h, if_pos hk]
      simp only [ServiceState.entry?, Finmap.lookup_insert_of_ne _ hne, hkept]
    · simp [ServiceState.entry?]

theorem resolveLocked_mirror (h : Listed s) (gates : Gates) (requested : ScopeId)
    (ancestry : List ScopeId) (symbol : ServiceSymbol) {answer : Option ServiceEntry}
    (ht : s.resolveLocked max fuel (.steady gates) requested ancestry symbol = some (t, answer)) :
    (mirror max s).resolve gates requested ancestry symbol = (mirror max t, answer) := by
  unfold ServiceState.resolveLocked at ht
  unfold Services.ServiceState.resolve
  rw [cached_mirror h]
  simp only [Sight.steady] at ht
  cases hcached : s.cached max gates.isVisible requested symbol with
  | Hit entry =>
    rw [hcached] at ht
    cases ht
    rfl
  | Miss =>
    rw [hcached] at ht
    simp only at ht ⊢
    obtain ⟨kept, hkept, heq⟩ := Option.map_eq_some_iff.mp ht
    cases heq
    split at hkept
    · rename_i hmax
      cases hkept
      have hsame : (mirror max s).remember (requested, symbol)
          ((mirror max s).locate gates ancestry symbol) = mirror max s := if_pos hmax
      rw [hsame]
      rfl
    · rename_i hmax
      have hpos : 0 < max := Nat.pos_of_ne_zero hmax
      obtain rfl := ServiceState.remember_some hpos h hkept
      rw [remember_mirror hpos h]
      have hentries : ∀ location, (s.remembered max (requested, symbol) location).entries = s.entries := by
        intro location
        unfold ServiceState.remembered
        simp only
        split <;> rfl
      rw [hentries]
      rfl

theorem resolve_mirror (h : Listed s) (gates : Gates) (requested : ScopeId)
    (ancestry : List ScopeId) (symbol : ServiceSymbol) {answer : Option ServiceEntry}
    (ht : s.resolve max fuel (.steady gates) requested ancestry symbol = some (t, answer)) :
    (mirror max s).resolveCall gates requested ancestry symbol = (mirror max t, answer) := by
  unfold ServiceState.resolve at ht
  unfold Services.ServiceState.resolveCall
  rw [cached_mirror h]
  simp only [Sight.steady] at ht
  cases hcached : s.cached max gates.isVisible requested symbol with
  | Hit entry =>
    rw [hcached] at ht
    cases ht
    rfl
  | Miss =>
    rw [hcached] at ht
    exact resolveLocked_mirror h gates requested ancestry symbol ht

/-! ## Changes of the entries -/

theorem bump_mirror (s : ServiceState) : mirror max s.bump = (mirror max s).bump := rfl

theorem insert_mirror (s : ServiceState) (scope : ScopeId) (symbol : ServiceSymbol)
    (entry : ServiceEntry) :
    mirror max (s.insert scope symbol entry) = (mirror max s).insert scope symbol entry := rfl

theorem remove_mirror (s : ServiceState) (scope : ScopeId) (symbol : ServiceSymbol) :
    mirror max (s.remove scope symbol).1 = (mirror max s).remove scope symbol := by
  unfold ServiceState.remove Services.ServiceState.remove
  cases hv : s.entries scope symbol with
  | none =>
    rw [if_neg (by simp [mirror, hv])]
  | some v =>
    rw [if_pos (by simp [mirror, hv])]
    rfl

theorem takeStaged_eq {source : ScopeId} {symbols : List ServiceSymbol} {entries : Entries}
    (hnodup : symbols.Nodup) (hthere : ∀ k ∈ symbols, (entries source k).isSome = true) :
    ∃ staged, ServiceState.takeStaged source symbols entries =
        (fun a k => if a = source ∧ k ∈ symbols then none else entries a k, some staged) ∧
      staged.map (·.1) = symbols ∧ ∀ p ∈ staged, entries source p.1 = some p.2 := by
  induction symbols generalizing entries with
  | nil => exact ⟨[], by simp [ServiceState.takeStaged], rfl, by simp⟩
  | cons symbol rest ih =>
    obtain ⟨hfresh, hrest⟩ := List.nodup_cons.mp hnodup
    obtain ⟨e, he⟩ := Option.isSome_iff_exists.mp (hthere symbol (List.mem_cons_self ..))
    have hleft : ∀ k, k ≠ symbol → entries.remove source symbol source k = entries source k :=
      fun k hk => if_neg fun hsame => hk hsame.2
    have hthere' : ∀ k ∈ rest, (entries.remove source symbol source k).isSome = true := by
      intro k hk
      rw [hleft k fun heq => hfresh (heq ▸ hk)]
      exact hthere k (List.mem_cons_of_mem symbol hk)
    obtain ⟨staged, htake, hsymbols, hentries⟩ := ih hrest hthere'
    refine ⟨(symbol, e) :: staged, ?_, by rw [List.map_cons, hsymbols], ?_⟩
    · simp only [ServiceState.takeStaged, he, htake]
      congr 1
      funext a k
      by_cases ha : a = source <;> by_cases hk : k = symbol <;> simp [Entries.remove, ha, hk]
    · intro p hp
      obtain rfl | hp := List.mem_cons.mp hp
      · exact he
      · have hne : p.1 ≠ symbol := by
          rintro heq
          exact hfresh (heq ▸ hsymbols ▸ List.mem_map_of_mem hp)
        rw [← hleft p.1 hne]
        exact hentries p hp

theorem foldl_putStaged {target : ScopeId} {staged : List (ServiceSymbol × ServiceEntry)}
    {entries : Entries} (hnodup : (staged.map (·.1)).Nodup) (a : ScopeId) (k : ServiceSymbol) :
    staged.foldl (ServiceState.putStaged target) entries a k =
      if a = target then
        ((staged.lookup k).map fun e => { e with scope := target }).or (entries a k)
      else entries a k := by
  induction staged generalizing entries with
  | nil => simp
  | cons p staged ih =>
    obtain ⟨symbol, e⟩ := p
    obtain ⟨hfresh, hrest⟩ := List.nodup_cons.mp hnodup
    rw [List.foldl_cons, ih hrest]
    by_cases ha : a = target
    · rw [if_pos ha, if_pos ha]
      by_cases hk : k = symbol
      · subst hk
        have hnone : staged.lookup k = none := by
          rw [List.lookup_eq_none_iff]
          intro p hp
          have hne : k ≠ p.1 := by
            rintro rfl
            exact hfresh (List.mem_map.mpr ⟨p, hp, rfl⟩)
          simpa using hne
        simp [hnone, ServiceState.putStaged, Entries.insert, ha]
      · have hbeq : (k == symbol) = false := beq_eq_false_iff_ne.mpr hk
        simp [List.lookup_cons, hbeq, ServiceState.putStaged, Entries.insert, hk]
    · rw [if_neg ha, if_neg ha]
      simp [ServiceState.putStaged, Entries.insert, ha]

theorem staged_entries {p : PreparedServiceRevision} {entries : Entries}
    {staged : List (ServiceSymbol × ServiceEntry)} (hnodup : p.symbols.Nodup)
    (hsymbols : staged.map (·.1) = p.symbols) (hstaged : ∀ q ∈ staged, entries p.source q.1 = some q.2)
    (a : ScopeId) (k : ServiceSymbol) :
    staged.foldl (ServiceState.putStaged p.target)
        (fun a k => if a = p.source ∧ k ∈ p.symbols then none else entries a k) a k =
      if k ∈ p.symbols then
        if a = p.target then (entries p.source k).map fun e => { e with scope := p.target }
        else if a = p.source then none
        else entries a k
      else entries a k := by
  rw [foldl_putStaged (hsymbols ▸ hnodup)]
  by_cases hk : k ∈ p.symbols
  · rw [← hsymbols] at hk
    obtain ⟨q, hq, rfl⟩ := List.mem_map.mp hk
    have hlookup : staged.lookup q.1 = some q.2 := by
      obtain ⟨before, after, rfl⟩ := List.append_of_mem hq
      refine List.lookup_eq_some_iff.mpr ⟨before, after, rfl, ?_⟩
      intro q' hq'
      rw [← hsymbols, List.map_append, List.nodup_append] at hnodup
      simpa using (hnodup.2.2 q'.1 (List.mem_map_of_mem hq') q.1 (by simp)).symm
    simp [hlookup, hstaged q hq, hsymbols ▸ hk]
  · have hnone : staged.lookup k = none := by
      rw [List.lookup_eq_none_iff]
      intro q hq
      have hne : k ≠ q.1 := by
        rintro rfl
        exact hk (hsymbols ▸ List.mem_map_of_mem hq)
      simpa using hne
    simp [hnone, hk]

theorem commit_mirror (s : ServiceState) (gates : Gates) {p : PreparedServiceRevision}
    (stagedGate oldGate : Nat) (hnodup : p.symbols.Nodup) :
    ∃ t outcome, s.commitRevisionAndPublish p (gates.cutoverFrom stagedGate oldGate).2 =
        (t, .returned outcome) ∧
      ∃ gates', (mirror max s).commitRevisionAndPublish gates p stagedGate oldGate =
        some (mirror max t, gates', outcome) := by
  have hintact : (mirror max s).revisionIntact p = s.entries.revisionIntact p := rfl
  unfold ServiceState.commitRevisionAndPublish Services.ServiceState.commitRevisionAndPublish
  rw [hintact]
  cases hv : s.entries.revisionIntact p with
  | false => exact ⟨s, _, rfl, gates, rfl⟩
  | true =>
    simp only [Bool.not_true, Bool.false_eq_true, if_false]
    obtain ⟨gates', switched⟩ := gates.cutoverFrom stagedGate oldGate
    cases switched with
    | false => exact ⟨s, _, rfl, gates', rfl⟩
    | true =>
      have hthere : ∀ k ∈ p.symbols, (s.entries p.source k).isSome = true := by
        intro k hk
        obtain ⟨e, he, -⟩ := Services.ServiceState.revisionIntact_spec (hintact.trans hv) hk
        exact Option.isSome_iff_exists.mpr ⟨e, he⟩
      obtain ⟨staged, htake, hsymbols, hentries⟩ := takeStaged_eq hnodup hthere
      rw [htake]
      simp only [Bool.not_true, Bool.false_eq_true, if_false, if_pos hnodup]
      have hreplaced := funext fun a => funext fun k => staged_entries hnodup hsymbols hentries a k
      rw [hreplaced]
      exact ⟨_, _, rfl, gates', rfl⟩

end Cordis.CacheOrder
