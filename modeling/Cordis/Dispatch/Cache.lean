import Cordis.Dispatch.Services
import Cordis.Core.Error

/-!
# The resolution cache is invisible

`Registry` is a `ServiceRegistry` with the gates of its entries and the ancestries its callers pass,
`Directory` the same without a cache. The callers change an ancestry only together with a bump of the
epoch. A call answers on a `Registry` what it answers on its `Directory` (`call_directory`), and so a
whole sequence of calls does, whatever the capacity of the cache (`cache_invisible`).

A cached location stays right until the next bump: a gate that closes takes visible entries away, so
nothing nearer than the location can appear, and the location itself is looked at again on a hit.
-/

namespace Cordis

namespace Gates

variable (s : Gates)

/-- `CapabilityGate::publish`. -/
def publish (g : Nat) : Gates × Bool :=
  if (s.gate g).retired then (s, false) else s.switch (s.selector g) GenerationId.NONE (s.generation g)

/-- `CapabilityGate::close`. -/
def close (g : Nat) : Gates :=
  ((s.retire g).switch (s.selector g) (s.generation g) GenerationId.NONE).1.beginDraining g

/-- `CapabilityGate::cutover_from`. -/
def cutoverFrom (g old : Nat) : Gates × Bool :=
  if (s.gate g).retired ∨ s.selector g ≠ s.selector old then (s, false)
  else
    match s.switch (s.selector g) (s.generation old) (s.generation g) with
    | (s, true) => ((s.retire old).beginDraining old, true)
    | (s, false) => (s, false)

end Gates

namespace Services

/-- `ServiceRegistry::resolve`: the cache is asked under the read lock, then again under the write
lock. -/
def ServiceState.resolveCall (s : ServiceState) (gates : Gates) (requested : ScopeId)
    (ancestry : List ScopeId) (symbol : ServiceSymbol) : ServiceState × Option ServiceEntry :=
  match s.cached gates requested symbol with
  | .Hit entry => (s, entry)
  | .Miss => s.resolve gates requested ancestry symbol

/-- `ServiceRegistry::commit_revision_and_publish`; `none` where an `expect` panics, on a symbol that
is prepared twice. -/
def ServiceState.commitRevisionAndPublish (s : ServiceState) (gates : Gates)
    (p : PreparedServiceRevision) (stagedGate oldGate : Nat) :
    Option (ServiceState × Gates × Except CordisError Unit) :=
  if !s.revisionIntact p then
    some (s, gates, .error (.RevisionValidationFailed "prepared service revision changed before commit"))
  else
    match gates.cutoverFrom stagedGate oldGate with
    | (gates, false) => some (s, gates, .error (.CapabilityPublicationFailed p.stagedOwner))
    | (gates, true) => if p.symbols.Nodup then some (s.replace p, gates, .ok ()) else none

inductive Operation
  | insert (scope : ScopeId) (symbol : ServiceSymbol) (entry : ServiceEntry)
  | remove (scope : ScopeId) (symbol : ServiceSymbol)
  | commitRevisionAndPublish (p : PreparedServiceRevision) (stagedGate oldGate : Nat)
  | close (gate : Nat)
  /-- `publish`, followed by `bump_epoch` when it succeeds. -/
  | publish (gate : Nat)
  | bumpEpoch
  | resolve (requested : ScopeId) (symbol : ServiceSymbol)

inductive Answer
  | done
  | removed (entry : Option ServiceEntry)
  | committed (outcome : Except CordisError Unit)
  | published (success : Bool)
  | resolved (entry : Option ServiceEntry)

abbrev Ancestry := ScopeId → List ScopeId

structure Registry where
  services : ServiceState
  gates : Gates
  ancestry : Ancestry

/-- A registry that looks every resolution up. -/
structure Directory where
  entries : Entries
  gates : Gates
  ancestry : Ancestry

namespace Registry

/-- `ServiceRegistry::new`. -/
def new (maxCacheEntries : Nat) (gates : Gates) (ancestry : Ancestry) : Registry :=
  ⟨⟨fun _ _ => none, 0, [], maxCacheEntries⟩, gates, ancestry⟩

/-- One call; `ancestry` are the ancestries from the next bump on. -/
def call (r : Registry) (ancestry : Ancestry) : Operation → Option (Registry × Answer)
  | .insert scope symbol entry =>
    some (⟨r.services.insert scope symbol entry, r.gates, ancestry⟩, .done)
  | .remove scope symbol =>
    let removed := r.services.entries scope symbol
    some (⟨r.services.remove scope symbol, r.gates, if removed.isSome then ancestry else r.ancestry⟩,
      .removed removed)
  | .commitRevisionAndPublish p stagedGate oldGate =>
    (r.services.commitRevisionAndPublish r.gates p stagedGate oldGate).map fun
      | (services, gates, .ok ()) => (⟨services, gates, ancestry⟩, .committed (.ok ()))
      | (services, gates, .error e) => (⟨services, gates, r.ancestry⟩, .committed (.error e))
  | .close gate => some (⟨r.services, r.gates.close gate, r.ancestry⟩, .done)
  | .publish gate =>
    match r.gates.publish gate with
    | (gates, true) => some (⟨r.services.bump, gates, ancestry⟩, .published true)
    | (gates, false) => some (⟨r.services, gates, r.ancestry⟩, .published false)
  | .bumpEpoch => some (⟨r.services.bump, r.gates, ancestry⟩, .done)
  | .resolve requested symbol =>
    match r.services.resolveCall r.gates requested (r.ancestry requested) symbol with
    | (services, entry) => some (⟨services, r.gates, r.ancestry⟩, .resolved entry)

/-- The answers of a sequence of calls; `none` when one of them panics. -/
def answers (r : Registry) : List (Ancestry × Operation) → Option (List Answer)
  | [] => some []
  | (ancestry, o) :: rest => do
    let (r, answer) ← r.call ancestry o
    return answer :: (← answers r rest)

def directory (r : Registry) : Directory := ⟨r.services.entries, r.gates, r.ancestry⟩

end Registry

namespace Directory

def new (gates : Gates) (ancestry : Ancestry) : Directory := ⟨fun _ _ => none, gates, ancestry⟩

/-- The entry of `scope`, if it is visible. -/
def visible (d : Directory) (scope : ScopeId) (symbol : ServiceSymbol) : Option ServiceEntry :=
  (d.entries scope symbol).filter fun e => d.gates.isVisible e.gate

/-- The entry of the first Scope of the ancestry that holds a visible one. -/
def nearest (d : Directory) (requested : ScopeId) (symbol : ServiceSymbol) : Option ServiceEntry :=
  (d.ancestry requested).findSome? fun scope => d.visible scope symbol

def call (d : Directory) (ancestry : Ancestry) : Operation → Option (Directory × Answer)
  | .insert scope symbol entry =>
    some (⟨d.entries.insert scope symbol entry, d.gates, ancestry⟩, .done)
  | .remove scope symbol =>
    match d.entries scope symbol with
    | none => some (d, .removed none)
    | some e => some (⟨d.entries.remove scope symbol, d.gates, ancestry⟩, .removed (some e))
  | .commitRevisionAndPublish p stagedGate oldGate =>
    if !d.entries.revisionIntact p then
      some (d, .committed (.error
        (.RevisionValidationFailed "prepared service revision changed before commit")))
    else
      match d.gates.cutoverFrom stagedGate oldGate with
      | (gates, false) =>
        some ({ d with gates := gates },
          .committed (.error (.CapabilityPublicationFailed p.stagedOwner)))
      | (gates, true) =>
        if p.symbols.Nodup then
          some (⟨d.entries.replace p, gates, ancestry⟩, .committed (.ok ()))
        else none
  | .close gate => some ({ d with gates := d.gates.close gate }, .done)
  | .publish gate =>
    match d.gates.publish gate with
    | (gates, true) => some ({ d with gates := gates, ancestry := ancestry }, .published true)
    | (gates, false) => some ({ d with gates := gates }, .published false)
  | .bumpEpoch => some ({ d with ancestry := ancestry }, .done)
  | .resolve requested symbol => some (d, .resolved (d.nearest requested symbol))

def answers (d : Directory) : List (Ancestry × Operation) → Option (List Answer)
  | [] => some []
  | (ancestry, o) :: rest => do
    let (d, answer) ← d.call ancestry o
    return answer :: (← answers d rest)

end Directory

/-! ## Whole calls on gates -/

/-- Atomic operations of one call on gate `g`, with nothing in between. -/
def GateRun (g : Nat) (op : GateOp) : Gates × GatePc → Gates × GatePc → Prop :=
  Relation.ReflTransGen fun a b => stepGate a.1 g op a.2 = some b

theorem publish_run (s : Gates) (g : Nat) :
    GateRun g .publish (s, .begin) ((s.publish g).1, .done (s.publish g).2) := by
  unfold Gates.publish
  by_cases hretired : (s.gate g).retired = true
  · rw [if_pos hretired]
    exact .single (by simp [stepGate, hretired])
  · rw [if_neg hretired]
    exact .head (b := (s, .switch)) (by simp [stepGate, hretired]) (.single rfl)

theorem close_run (s : Gates) (g : Nat) :
    GateRun g .close (s, .begin) (s.close g, .done true) := by
  have hgeneration : (s.retire g).generation g = s.generation g :=
    congrFun (Gates.retire_same s g).generation g
  refine .head (b := (s.retire g, .switch)) rfl (.head (b := (_, .drain)) rfl (.single ?_))
  show some _ = some _
  rw [hgeneration]
  rfl

theorem cutoverFrom_run (s : Gates) (g old : Nat) :
    GateRun g (.cutoverFrom old) (s, .begin)
      ((s.cutoverFrom g old).1, .done (s.cutoverFrom g old).2) := by
  unfold Gates.cutoverFrom
  by_cases hrefused : (s.gate g).retired = true ∨ s.selector g ≠ s.selector old
  · rw [if_pos hrefused]
    exact .single (by simp [stepGate, hrefused])
  rw [if_neg hrefused]
  refine .head (b := (s, .switch)) (by simp [stepGate, hrefused]) ?_
  rcases hswitch : s.switch (s.selector g) (s.generation old) (s.generation g) with ⟨t, switched⟩
  cases switched with
  | true =>
    refine .head (b := (t, .retire)) (by simp [stepGate, hswitch]) ?_
    exact .head (b := (t.retire old, .drain)) rfl (.single rfl)
  | false => exact .single (by simp [stepGate, hswitch])

/-! ## Closing only hides -/

/-- No gate of `t` shows what `s` hides. -/
def Hides (s t : Gates) : Prop := ∀ g, t.isVisible g = true → s.isVisible g = true

theorem close_same (s : Gates) (g : Nat) : Gates.Same s (s.close g) := by
  have hretire := Gates.retire_same s g
  have hswitch := Gates.switch_same (s.retire g) (s.selector g) (s.generation g) GenerationId.NONE
  have hdrain := Gates.withExecution_same
    ((s.retire g).switch (s.selector g) (s.generation g) GenerationId.NONE).1 g
  exact ⟨(hdrain _).selector.trans (hswitch.selector.trans hretire.selector),
    (hdrain _).generation.trans (hswitch.generation.trans hretire.generation)⟩

theorem close_hides {s : Gates} (hgenerated : ∀ g, s.generation g ≠ .NONE) (g : Nat) :
    Hides s (s.close g) := by
  intro m hm
  have hsame := close_same s g
  rw [Gates.isVisible_iff, hsame.selector, hsame.generation] at hm
  rw [Gates.isVisible_iff]
  have hactive : (s.close g).active =
      if s.active (s.selector g) = s.generation g then
        Function.update s.active (s.selector g) GenerationId.NONE
      else s.active := by
    show ((s.retire g).switch (s.selector g) (s.generation g) GenerationId.NONE).1.active = _
    unfold Gates.switch
    by_cases hshown : s.active (s.selector g) = s.generation g
    · rw [if_pos hshown, if_pos (show (s.retire g).active _ = _ from hshown)]
      rfl
    · rw [if_neg hshown, if_neg (show (s.retire g).active _ ≠ _ from hshown)]
      rfl
  rw [hactive] at hm
  split_ifs at hm
  · by_cases hk : s.selector m = s.selector g
    · rw [hk, Function.update_self] at hm
      exact absurd hm.symm (hgenerated m)
    · rwa [Function.update_of_ne hk] at hm
  · exact hm

/-! ## What a cached location says -/

namespace Directory

variable {d : Directory} {requested scope : ScopeId} {symbol : ServiceSymbol}

/-- The location is the one the ancestry led to, at the last bump or since. -/
def Located (d : Directory) (requested : ScopeId) (symbol : ServiceSymbol) :
    Option (ScopeId × FiberId) → Prop
  | none => ∀ a ∈ d.ancestry requested, d.visible a symbol = none
  | some (scope, owner) => ∃ nearer further e, d.ancestry requested = nearer ++ scope :: further ∧
      (∀ a ∈ nearer, d.visible a symbol = none) ∧ d.entries scope symbol = some e ∧ e.owner = owner

theorem visible_hides {gates : Gates} (h : Hides d.gates gates)
    (hnone : d.visible scope symbol = none) :
    visible { d with gates := gates } scope symbol = none := by
  rw [visible, Option.filter_eq_none_iff] at hnone ⊢
  intro e he hvisible
  exact hnone e he (h e.gate hvisible)

theorem located_hides {gates : Gates} {location : Option (ScopeId × FiberId)}
    (h : Hides d.gates gates) (hl : d.Located requested symbol location) :
    Located { d with gates := gates } requested symbol location := by
  cases location with
  | none => exact fun a ha => visible_hides h (hl a ha)
  | some p =>
    obtain ⟨nearer, further, e, heq, hnearer, he, howner⟩ := hl
    exact ⟨nearer, further, e, heq, fun a ha => visible_hides h (hnearer a ha), he, howner⟩

theorem nearest_of_none (hl : d.Located requested symbol none) :
    d.nearest requested symbol = none :=
  List.findSome?_eq_none_iff.mpr hl

theorem nearest_of_some {owner : FiberId} {e : ServiceEntry}
    (hl : d.Located requested symbol (some (scope, owner)))
    (he : d.visible scope symbol = some e) : d.nearest requested symbol = some e := by
  obtain ⟨nearer, further, -, heq, hnearer, -, -⟩ := hl
  have hnone : nearer.findSome? (fun a => d.visible a symbol) = none :=
    List.findSome?_eq_none_iff.mpr hnearer
  rw [nearest, heq, List.findSome?_append, hnone, Option.none_or, List.findSome?_cons, he]

end Directory

namespace Registry

variable {r r' : Registry} {requested scope : ScopeId} {symbol : ServiceSymbol} {answer : Answer}

/-- What the cache holds is right, and the gates are of generations that were allocated. -/
structure Valid (r : Registry) : Prop where
  generated : ∀ g, r.gates.generation g ≠ .NONE
  located : ∀ requested symbol c, ((requested, symbol), c) ∈ r.services.cache →
    c.epoch = r.services.epoch → r.directory.Located requested symbol c.location

theorem valid_new {gates : Gates} (h : ∀ g, gates.generation g ≠ .NONE) (maxCacheEntries : Nat)
    (ancestry : Ancestry) : (new maxCacheEntries gates ancestry).Valid :=
  ⟨h, fun _ _ _ hc => by cases hc⟩

theorem valid_bump {services : ServiceState} {gates : Gates} {ancestry : Ancestry}
    (h : ∀ g, gates.generation g ≠ .NONE) : (Registry.mk services.bump gates ancestry).Valid :=
  ⟨h, fun _ _ _ hc => by cases hc⟩

/-- What the cache answers is the nearest visible entry. -/
theorem cached_exact {entry : Option ServiceEntry} (hv : r.Valid)
    (h : r.services.cached r.gates requested symbol = .Hit entry) :
    entry = r.directory.nearest requested symbol := by
  unfold ServiceState.cached at h
  split_ifs at h
  unfold ServiceState.cachedResolution Entries.cachedResolution at h
  split at h
  · cases h
  rename_i c hlook
  split_ifs at h with hepoch
  rw [not_not] at hepoch
  have hlocated : r.directory.Located requested symbol c.location := by
    obtain ⟨before, after, heq, -⟩ := List.lookup_eq_some_iff.mp hlook
    refine hv.located requested symbol c ?_ hepoch
    rw [heq]
    exact List.mem_append_right _ (List.mem_cons_self ..)
  split at h
  · rename_i hnone
    cases h
    rw [hnone] at hlocated
    exact (Directory.nearest_of_none hlocated).symm
  · rename_i hsome
    rw [hsome] at hlocated
    split at h
    · rename_i e hfound
      cases h
      obtain ⟨hentry, -, hvisible⟩ := Entries.visibleAt_eq_some.mp hfound
      refine (Directory.nearest_of_some hlocated ?_).symm
      exact Option.filter_eq_some_iff.mpr ⟨hentry, hvisible⟩
    · cases h

theorem locate_located (r : Registry) (requested : ScopeId) (symbol : ServiceSymbol) :
    r.directory.Located requested symbol
      (r.services.locate r.gates (r.ancestry requested) symbol) := by
  cases hl : r.services.locate r.gates (r.ancestry requested) symbol with
  | none =>
    intro a ha
    have hnone := List.findSome?_eq_none_iff.mp hl a ha
    exact Option.map_eq_none_iff.mp hnone
  | some p =>
    obtain ⟨nearer, scope, further, heq, hfound, hnearer⟩ := List.findSome?_eq_some_iff.mp hl
    obtain ⟨e, he, rfl⟩ := Option.map_eq_some_iff.mp hfound
    exact ⟨nearer, further, e, heq, fun a ha => Option.map_eq_none_iff.mp (hnearer a ha),
      (Option.filter_eq_some_iff.mp he).1, rfl⟩

theorem locate_exact (r : Registry) (requested : ScopeId) (symbol : ServiceSymbol) :
    (r.services.locate r.gates (r.ancestry requested) symbol).bind
        (r.services.entries.visibleAt r.gates.isVisible symbol) =
      r.directory.nearest requested symbol := by
  have hlocated := locate_located r requested symbol
  cases hl : r.services.locate r.gates (r.ancestry requested) symbol with
  | none =>
    rw [hl] at hlocated
    exact (Directory.nearest_of_none hlocated).symm
  | some p =>
    rw [hl] at hlocated
    obtain ⟨e, he, howner, hvisible⟩ := ServiceState.locate_spec hl
    have hnearest : r.directory.visible p.1 symbol = some e :=
      Option.filter_eq_some_iff.mpr ⟨he, hvisible⟩
    rw [Option.bind_some, Entries.visibleAt_eq_some.mpr ⟨he, howner, hvisible⟩]
    exact (Directory.nearest_of_some hlocated hnearest).symm

theorem remember_epoch (s : ServiceState) (key : ScopeId × ServiceSymbol)
    (location : Option (ScopeId × FiberId)) : (s.remember key location).epoch = s.epoch := by
  unfold ServiceState.remember
  split_ifs <;> rfl

theorem resolve_exact (hv : r.Valid) (requested : ScopeId) (symbol : ServiceSymbol) :
    (r.services.resolve r.gates requested (r.ancestry requested) symbol).2 =
        r.directory.nearest requested symbol ∧
      Valid ⟨(r.services.resolve r.gates requested (r.ancestry requested) symbol).1, r.gates,
        r.ancestry⟩ := by
  have hentries : (r.services.resolve r.gates requested (r.ancestry requested) symbol).1.entries =
      r.services.entries := ServiceState.resolve_entries ..
  unfold ServiceState.resolve at hentries ⊢
  cases hcached : r.services.cached r.gates requested symbol with
  | Hit entry => exact ⟨cached_exact hv hcached, hv⟩
  | Miss =>
    rw [hcached] at hentries
    refine ⟨locate_exact r requested symbol, hv.generated, fun requested' symbol' c hc hepoch => ?_⟩
    have hdirectory : directory ⟨(r.services.remember (requested, symbol)
        (r.services.locate r.gates (r.ancestry requested) symbol)), r.gates, r.ancestry⟩ =
        r.directory := by
      unfold directory
      rw [hentries]
    change (directory ⟨_, _, _⟩).Located _ _ _
    rw [hdirectory]
    rcases ServiceState.mem_remember hc with hold | ⟨hkey, rfl⟩
    · exact hv.located requested' symbol' c hold (hepoch.trans (remember_epoch ..))
    · cases hkey
      exact locate_located r requested symbol

theorem resolveCall_eq (s : ServiceState) (gates : Gates) (requested : ScopeId)
    (ancestry : List ScopeId) (symbol : ServiceSymbol) :
    s.resolveCall gates requested ancestry symbol = s.resolve gates requested ancestry symbol := by
  unfold ServiceState.resolveCall ServiceState.resolve
  cases s.cached gates requested symbol <;> rfl

theorem publish_same (s : Gates) (g : Nat) : Gates.Same s (s.publish g).1 := by
  unfold Gates.publish
  split_ifs
  · exact .refl s
  · exact Gates.switch_same ..

theorem publish_refused {s : Gates} {g : Nat} (h : (s.publish g).2 = false) :
    (s.publish g).1 = s := by
  unfold Gates.publish at h ⊢
  split_ifs at h ⊢
  · rfl
  · unfold Gates.switch at h ⊢
    split_ifs at h ⊢
    rfl

theorem cutoverFrom_same (s : Gates) (g old : Nat) : Gates.Same s (s.cutoverFrom g old).1 := by
  unfold Gates.cutoverFrom
  split_ifs
  · exact .refl s
  have hswitch := Gates.switch_same s (s.selector g) (s.generation old) (s.generation g)
  split
  all_goals
    rename_i heq
    rw [heq] at hswitch
  · rename_i t
    have hretire := Gates.retire_same t old
    have hdrain := Gates.withExecution_same (t.retire old) old
    exact ⟨(hdrain _).selector.trans (hretire.selector.trans hswitch.selector),
      (hdrain _).generation.trans (hretire.generation.trans hswitch.generation)⟩
  · exact hswitch

theorem cutoverFrom_refused {s : Gates} {g old : Nat} (h : (s.cutoverFrom g old).2 = false) :
    (s.cutoverFrom g old).1 = s := by
  unfold Gates.cutoverFrom at h ⊢
  split_ifs at h ⊢
  · rfl
  unfold Gates.switch at h ⊢
  split_ifs at h ⊢
  rfl

theorem generated_same {s t : Gates} (h : ∀ g, s.generation g ≠ .NONE) (hsame : Gates.Same s t) :
    ∀ g, t.generation g ≠ .NONE := by
  rw [hsame.generation]
  exact h

theorem commit_directory (hv : r.Valid) (ancestry : Ancestry) (p : PreparedServiceRevision)
    (stagedGate oldGate : Nat) :
    (r.call ancestry (.commitRevisionAndPublish p stagedGate oldGate)).map
        (fun q => (q.1.directory, q.2)) =
      r.directory.call ancestry (.commitRevisionAndPublish p stagedGate oldGate) ∧
    ∀ q, r.call ancestry (.commitRevisionAndPublish p stagedGate oldGate) = some q →
      q.1.Valid := by
  have hsame := cutoverFrom_same r.gates stagedGate oldGate
  have hrefused : (r.gates.cutoverFrom stagedGate oldGate).2 = false →
      (r.gates.cutoverFrom stagedGate oldGate).1 = r.gates := cutoverFrom_refused
  have hintact : r.services.revisionIntact p = r.directory.entries.revisionIntact p := rfl
  simp only [call, Directory.call, ServiceState.commitRevisionAndPublish, hintact]
  by_cases hfailed : (!r.directory.entries.revisionIntact p) = true
  · simp only [if_pos hfailed]
    refine ⟨rfl, fun q hq => ?_⟩
    cases hq
    exact hv
  simp only [if_neg hfailed, show r.directory.gates = r.gates from rfl]
  rcases hcutover : r.gates.cutoverFrom stagedGate oldGate with ⟨gates, success⟩
  rw [hcutover] at hsame hrefused
  cases success with
  | false =>
    obtain rfl : gates = r.gates := hrefused rfl
    refine ⟨rfl, fun q hq => ?_⟩
    cases hq
    exact hv
  | true =>
    by_cases hnodup : p.symbols.Nodup
    · simp only [if_pos hnodup]
      refine ⟨rfl, fun q hq => ?_⟩
      cases hq
      exact valid_bump (generated_same hv.generated hsame)
    · simp only [if_neg hnodup]
      exact ⟨rfl, nofun⟩

/-- **A call answers what it answers without a cache**, and leaves the cache right. -/
theorem call_directory (hv : r.Valid) (ancestry : Ancestry) (o : Operation) :
    (r.call ancestry o).map (fun p => (p.1.directory, p.2)) = r.directory.call ancestry o ∧
      ∀ p, r.call ancestry o = some p → p.1.Valid := by
  cases o with
  | insert scope symbol entry =>
    refine ⟨rfl, fun p hp => ?_⟩
    cases hp
    exact valid_bump hv.generated
  | remove scope symbol =>
    cases he : r.services.entries scope symbol with
    | none =>
      have hsame : r.services.remove scope symbol = r.services := by
        unfold ServiceState.remove
        rw [he]
        rfl
      simp only [call, Directory.call, directory, he, hsame]
      refine ⟨rfl, fun p hp => ?_⟩
      cases hp
      exact hv
    | some e =>
      have hbump : r.services.remove scope symbol =
          ServiceState.bump { r.services with entries := r.services.entries.remove scope symbol } := by
        unfold ServiceState.remove
        rw [he]
        rfl
      simp only [call, Directory.call, directory, he, hbump]
      refine ⟨rfl, fun p hp => ?_⟩
      cases hp
      exact valid_bump hv.generated
  | commitRevisionAndPublish p stagedGate oldGate => exact commit_directory hv ancestry p _ _
  | close gate =>
    refine ⟨rfl, fun p hp => ?_⟩
    cases hp
    refine ⟨generated_same hv.generated (close_same r.gates gate), fun requested symbol c hc he => ?_⟩
    exact Directory.located_hides (d := r.directory) (close_hides hv.generated gate)
      (hv.located requested symbol c hc he)
  | publish gate =>
    have hsame := publish_same r.gates gate
    have hrefused := publish_refused (s := r.gates) (g := gate)
    simp only [call, Directory.call, directory]
    rcases hpublish : r.gates.publish gate with ⟨gates, success⟩
    rw [hpublish] at hsame hrefused
    cases success with
    | true =>
      refine ⟨rfl, fun p hp => ?_⟩
      cases hp
      exact valid_bump (generated_same hv.generated hsame)
    | false =>
      obtain rfl : gates = r.gates := hrefused rfl
      refine ⟨rfl, fun p hp => ?_⟩
      cases hp
      exact hv
  | bumpEpoch =>
    refine ⟨rfl, fun p hp => ?_⟩
    cases hp
    exact valid_bump hv.generated
  | resolve requested symbol =>
    have hentries : (r.services.resolve r.gates requested (r.ancestry requested) symbol).1.entries =
        r.services.entries := ServiceState.resolve_entries ..
    obtain ⟨hexact, hvalid⟩ := resolve_exact hv requested symbol
    simp only [call, Directory.call, resolveCall_eq, ← hexact]
    refine ⟨?_, fun p hp => ?_⟩
    · simp only [Option.map_some, directory, hentries]
    · cases hp
      exact hvalid

theorem answers_directory (hv : r.Valid) (calls : List (Ancestry × Operation)) :
    r.answers calls = r.directory.answers calls := by
  induction calls generalizing r with
  | nil => rfl
  | cons first rest ih =>
    obtain ⟨ancestry, o⟩ := first
    obtain ⟨hcall, hvalid⟩ := call_directory hv ancestry o
    cases hr : r.call ancestry o with
    | none =>
      rw [hr] at hcall
      simp only [answers, Directory.answers, hr, ← hcall]
      rfl
    | some q =>
      rw [hr] at hcall
      simp only [answers, Directory.answers, hr, ← hcall, Option.map_some]
      show (q.1.answers rest).bind _ = (q.1.directory.answers rest).bind _
      rw [ih (hvalid q hr)]

/-- **The cache is invisible**: from a fresh registry, whatever the capacity of the cache, every
sequence of calls is answered as without one, where a resolution answers the entry of the first Scope
of the ancestry that holds a visible one. -/
theorem cache_invisible {gates : Gates} (hgenerated : ∀ g, gates.generation g ≠ .NONE)
    (maxCacheEntries : Nat) (ancestry : Ancestry) (calls : List (Ancestry × Operation)) :
    (new maxCacheEntries gates ancestry).answers calls =
      (Directory.new gates ancestry).answers calls :=
  answers_directory (valid_new hgenerated maxCacheEntries ancestry) calls

/-- Two gates on selectors of their own, neither published. -/
def twoGates : Gates := ⟨fun _ => .NONE, id, fun _ => .staged 1⟩

/-- A location is cached, its gate closes, a farther entry takes over, and a nearer one appears. -/
def closing : List Operation :=
  [.insert 0 5 ⟨1, 0, 0⟩, .publish 0, .resolve 2 5, .insert 2 5 ⟨2, 2, 1⟩, .publish 1, .resolve 2 5,
    .close 1, .resolve 2 5, .resolve 2 5, .close 0, .resolve 2 5]

theorem cache_invisible_closing :
    (new 1 twoGates fun _ => [2, 1, 0]).answers (closing.map (Prod.mk fun _ => [2, 1, 0])) =
      some [.done, .published true, .resolved (some ⟨1, 0, 0⟩), .done, .published true,
        .resolved (some ⟨2, 2, 1⟩), .done, .resolved (some ⟨1, 0, 0⟩), .resolved (some ⟨1, 0, 0⟩),
        .done, .resolved none] := by
  have hgenerated : ∀ g, twoGates.generation g ≠ .NONE := by
    intro g
    show (1 : GenerationId) ≠ .NONE
    decide
  rw [cache_invisible hgenerated]
  rfl

end Registry

end Services

end Cordis
