import Cordis.Dispatch.Supply
import Cordis.Dispatch.Snapshot

/-!
# A reload does not interrupt its capabilities

While one reload runs and nothing else of the lifecycle, a key that both revisions handle is always
handled, and a service that both provide is always provided.
-/

namespace Cordis.Revision

open Machine Services

variable {r : Plan} {s s' : State} {pc pc' : Pc} {i j : Invocation.State} {g : Nat}

/-! ## One attempt of a snapshot -/

/-- The cache names the generation of the gate. -/
def Named (i : Invocation.State) (g : Nat) : Prop :=
  i.cache.lookup (i.gates.selector g) = some (i.gates.generation g)

/-- The cache has what the selectors said in this attempt; a second attempt began after the switch. -/
def Looks (r : Plan) (pc : Pc) (i : Invocation.State) : Prop :=
  ∀ q a, i.cache.lookup q = some a →
    if q = i.gates.selector r.stagedGate then
      a = i.gates.generation r.oldGate ∧ i.secondAttempt = false ∨
        a = i.gates.generation r.stagedGate ∧ pc.switched = true
    else a = i.gates.active q

/-- The search has not come to the entry yet. -/
def AheadOf (r : Plan) (i : Invocation.State) (entry : Invocation.HandlerEntry) :
    List ScopeId → List Invocation.HandlerEntry → Prop
  | [], _ => False
  | scope :: rest, entries =>
    scope = r.target ∧ entry ∈ entries ∨ r.target ∈ rest ∧ entry ∈ i.registry.handlers

/-- A handler of gate `g` in the target Scope is ahead. -/
def Waits (r : Plan) (i : Invocation.State) (g : Nat) (scopes : List ScopeId)
    (entries : List Invocation.HandlerEntry) : Prop :=
  ∃ entry, entry.gate = g ∧ entry.scope = r.target ∧ entry.key = i.key ∧ AheadOf r i entry scopes entries

/-- The handler of the generation that the cache names, or may come to name, is ahead. -/
structure Reaches (r : Plan) (pc : Pc) (i : Invocation.State) (scopes : List ScopeId)
    (entries : List Invocation.HandlerEntry) : Prop where
  old : i.cache.lookup (i.gates.selector r.stagedGate) = some (i.gates.generation r.oldGate) ∨
    i.cache.lookup (i.gates.selector r.stagedGate) = none ∧ pc.switched = false →
      Waits r i r.oldGate scopes entries
  staged : i.cache.lookup (i.gates.selector r.stagedGate) = some (i.gates.generation r.stagedGate) ∨
    i.cache.lookup (i.gates.selector r.stagedGate) = none ∧ pc.relocates = true →
      Waits r i r.stagedGate scopes entries

/-- What a `snapshot` has reached. -/
def Attempt (r : Plan) (pc : Pc) (i : Invocation.State) : Prop :=
  match i.pc with
  | .lock => i.secondAttempt = false
  | .find scopes entries =>
    Looks r pc i ∧ (i.secondAttempt = true → pc.drained = true) ∧ Reaches r pc i scopes entries
  | .middleware handler _ kept =>
    Looks r pc i ∧ (i.secondAttempt = true → pc.drained = true) ∧
      Named i handler.gate ∧ ∀ p ∈ kept, Named i p.2.gate
  | .acquire _ todo =>
    Looks r pc i ∧ (i.secondAttempt = true → pc.drained = true) ∧ ∀ g ∈ todo, Named i g
  | .giveUp => i.secondAttempt = false ∧ pc.drained = true
  | .invoking | .ending | .ended => True
  | .notFound | .generationChanged => False

/-- The handlers of both revisions, by where the reload stands. -/
structure Handled (r : Plan) (pc : Pc) (i : Invocation.State) : Prop where
  ids : ∀ e ∈ i.registry.handlers, e.id ∈ r.handlers → e.gate = r.stagedGate
  old : pc.retiresOld = false →
    ∃ e ∈ i.registry.handlers, e.gate = r.oldGate ∧ e.scope = r.target ∧ e.key = i.key
  ready : pc = .adopted →
    ∃ e ∈ i.registry.handlers, e.id ∈ r.handlers ∧ e.gate = r.stagedGate ∧ e.key = i.key
  staged : pc.relocates = true →
    ∃ e ∈ i.registry.handlers, e.gate = r.stagedGate ∧ e.scope = r.target ∧ e.key = i.key
  caller : i.scopes = [] ∨ r.target ∈ i.scopes
  attempt : Attempt r pc i

theorem Attempt.meanwhile (h : Attempt r pc i) (hsame : Gates.Same i.gates j.gates)
    (hactive : ∀ q, q ≠ i.gates.selector r.stagedGate → j.gates.active q = i.gates.active q)
    (hpc : j.pc = i.pc) (hsecond : j.secondAttempt = i.secondAttempt) (hcache : j.cache = i.cache)
    (hkey : j.key = i.key) (hregistry : i.pc.locks = true → j.registry = i.registry)
    (hswitched : pc.switched = true → pc'.switched = true)
    (hdrained : pc.drained = true → pc'.drained = true)
    (hrelocates : i.pc.locks = true → pc'.relocates = true → pc.relocates = true) :
    Attempt r pc' j := by
  have hlooks : Looks r pc i → Looks r pc' j := by
    intro hl q a ha
    rw [hcache] at ha
    have hold := hl q a ha
    rw [hsame.selector, hsame.generation, hsecond]
    by_cases hq : q = i.gates.selector r.stagedGate
    · rw [if_pos hq] at hold ⊢
      exact hold.imp id fun h => ⟨h.1, hswitched h.2⟩
    · rw [if_neg hq] at hold ⊢
      rw [hactive q hq]
      exact hold
  have hnamed : ∀ g, Named i g → Named j g := by
    intro g hg
    unfold Named
    rw [hsame.selector, hsame.generation, hcache]
    exact hg
  have hwaits : i.pc.locks = true → ∀ g scopes entries, Waits r i g scopes entries →
      Waits r j g scopes entries := by
    rintro hlocks g scopes entries ⟨e, hgate, hscope, hk, hahead⟩
    refine ⟨e, hgate, hscope, hkey ▸ hk, ?_⟩
    cases scopes with
    | nil => exact hahead
    | cons scope rest => exact hahead.imp id fun h => ⟨h.1, hregistry hlocks ▸ h.2⟩
  have hreaches : ∀ scopes entries, i.pc.locks = true → Reaches r pc i scopes entries →
      Reaches r pc' j scopes entries := by
    intro scopes entries hlocks hr
    constructor
    · rw [hsame.selector, hsame.generation, hcache]
      rintro (hc | ⟨hc, hp⟩)
      · exact hwaits hlocks _ _ _ (hr.old (.inl hc))
      · refine hwaits hlocks _ _ _ (hr.old (.inr ⟨hc, ?_⟩))
        by_contra hs
        rw [Bool.not_eq_false] at hs
        rw [hswitched hs] at hp
        cases hp
    · rw [hsame.selector, hsame.generation, hcache]
      rintro (hc | ⟨hc, hp⟩)
      · exact hwaits hlocks _ _ _ (hr.staged (.inl hc))
      · exact hwaits hlocks _ _ _ (hr.staged (.inr ⟨hc, hrelocates hlocks hp⟩))
  unfold Attempt at h ⊢
  rw [hpc, hsecond]
  cases hp : i.pc with
  | find scopes entries =>
    simp only [hp] at h ⊢
    exact ⟨hlooks h.1, fun hs => hdrained (h.2.1 hs), hreaches _ _ (by rw [hp]; rfl) h.2.2⟩
  | middleware handler entries kept =>
    simp only [hp] at h ⊢
    exact ⟨hlooks h.1, fun hs => hdrained (h.2.1 hs), hnamed _ h.2.2.1, fun p hp => hnamed _ (h.2.2.2 p hp)⟩
  | acquire chain todo =>
    simp only [hp] at h ⊢
    exact ⟨hlooks h.1, fun hs => hdrained (h.2.1 hs), fun g hg => hnamed g (h.2.2 g hg)⟩
  | giveUp =>
    simp only [hp] at h ⊢
    exact ⟨h.1, hdrained h.2⟩
  | lock =>
    simp only [hp] at h ⊢
    exact h
  | notFound => simp only [hp] at h
  | generationChanged => simp only [hp] at h
  | invoking => trivial
  | ending => trivial
  | ended => trivial

theorem Looks.usable (h : Looks r pc i) (hg : Gated r i.gates pc) (hn : Named i g) :
    Usable r i.gates pc i.secondAttempt g := by
  have hlook := h _ _ hn
  by_cases hsel : i.gates.selector g = i.gates.selector r.stagedGate
  · rw [if_pos hsel] at hlook
    rcases hlook with ⟨heq, hsecond⟩ | ⟨heq, hswitched⟩
    · exact .inl ⟨hg.unique _ _ (hsel.trans hg.selector.symm) heq, hsecond⟩
    · exact .inr (.inl ⟨hg.unique _ _ hsel heq, hswitched⟩)
  · rw [if_neg hsel] at hlook
    have hold : g ≠ r.oldGate := by
      rintro rfl
      exact hsel hg.selector
    have hnew : g ≠ r.stagedGate := by
      rintro rfl
      exact hsel rfl
    exact .inr (.inr ⟨hold, hnew, hg.others g hold hnew (Gates.isVisible_iff.mpr hlook.symm)⟩)

theorem aheadOf_start {entry : Invocation.HandlerEntry} {scopes : List ScopeId}
    (hentry : entry ∈ i.registry.handlers) (htarget : r.target ∈ scopes) :
    AheadOf r i entry scopes i.registry.handlers := by
  cases scopes with
  | nil => cases htarget
  | cons scope rest =>
    rcases List.mem_cons.mp htarget with heq | hrest
    · exact .inl ⟨heq.symm, hentry⟩
    · exact .inr ⟨hrest, hentry⟩

theorem Handled.attempts (h : Handled r pc i) (htarget : r.target ∈ i.scopes) (second : Bool)
    (hsecond : second = true → pc.drained = true) :
    Attempt r pc { i.attempt with secondAttempt := second } := by
  have hahead : ∀ g, (∃ e ∈ i.registry.handlers, e.gate = g ∧ e.scope = r.target ∧ e.key = i.key) →
      Waits r { i.attempt with secondAttempt := second } g i.scopes.reverse i.registry.handlers := by
    rintro g ⟨e, hin, hgate, hscope, hkey⟩
    exact ⟨e, hgate, hscope, hkey, aheadOf_start (i := { i.attempt with secondAttempt := second }) hin
      (List.mem_reverse.mpr htarget)⟩
  refine ⟨fun q a ha => ?_, hsecond, ⟨fun hc => ?_, fun hc => ?_⟩⟩
  · cases ha
  · refine hahead _ (h.old ?_)
    rcases hc with hc | ⟨-, hpc⟩
    · cases hc
    · exact Pc.not_retiresOld_of_not_switched hpc
  · refine hahead _ (h.staged ?_)
    rcases hc with hc | ⟨-, hpc⟩
    · cases hc
    · exact hpc

theorem Looks.cases (h : Looks r pc i) {a : GenerationId}
    (ha : i.cache.lookup (i.gates.selector r.stagedGate) = some a) :
    a = i.gates.generation r.oldGate ∨ a = i.gates.generation r.stagedGate := by
  have hlook := h _ _ ha
  rw [if_pos rfl] at hlook
  exact hlook.imp And.left And.left

theorem Reaches.waits {scopes : List ScopeId} {entries : List Invocation.HandlerEntry}
    (h : Reaches r pc i scopes entries) (hl : Looks r pc i) : ∃ g, Waits r i g scopes entries := by
  cases hc : i.cache.lookup (i.gates.selector r.stagedGate) with
  | none =>
    cases hpc : pc.switched with
    | false => exact ⟨_, h.old (.inr ⟨hc, hpc⟩)⟩
    | true => exact ⟨_, h.staged (.inr ⟨hc, Pc.relocates_of_switched hpc⟩)⟩
  | some a =>
    rcases hl.cases hc with rfl | rfl
    · exact ⟨_, h.old (.inl hc)⟩
    · exact ⟨_, h.staged (.inl hc)⟩

theorem Waits.next {scope : ScopeId} {rest : List ScopeId} (h : Waits r i g (scope :: rest) []) :
    Waits r i g rest i.registry.handlers := by
  obtain ⟨e, hgate, hscope, hkey, hahead⟩ := h
  rcases hahead with ⟨-, hin⟩ | ⟨hrest, hin⟩
  · cases hin
  · exact ⟨e, hgate, hscope, hkey, aheadOf_start hin hrest⟩

theorem Waits.skip {scope : ScopeId} {rest : List ScopeId} {entry : Invocation.HandlerEntry}
    {entries : List Invocation.HandlerEntry} (h : Waits r i g (scope :: rest) (entry :: entries))
    (hnot : entry.gate = g → entry.scope = scope → entry.key = i.key → False) :
    Waits r i g (scope :: rest) entries := by
  obtain ⟨e, hgate, hscope, hkey, hahead⟩ := h
  refine ⟨e, hgate, hscope, hkey, ?_⟩
  rcases hahead with ⟨htarget, hin⟩ | hlater
  · rcases List.mem_cons.mp hin with rfl | hin
    · exact (hnot hgate (hscope.trans htarget.symm) hkey).elim
    · exact .inl ⟨htarget, hin⟩
  · exact .inr hlater

theorem Looks.visible (h : Looks r pc i) (hg : Gated r i.gates pc)
    (hsecond : i.secondAttempt = true → pc.drained = true) (g : Nat) (p : Invocation.Pc) :
    Looks r pc { i with cache := (i.cache.visible i.gates g).1, pc := p } := by
  intro q a ha
  rcases VisibilityCache.lookup_visible_cases i.cache i.gates g q with hsame | ⟨-, hfills⟩
  · exact h q a (hsame.symm.trans ha)
  · have heq : a = i.gates.active q := Option.some.inj (ha.symm.trans hfills)
    subst heq
    split_ifs with hq
    · subst hq
      have hactive := hg.active
      cases hpc : pc.switched with
      | true =>
        rw [if_pos hpc] at hactive
        exact .inr ⟨hactive, rfl⟩
      | false =>
        rw [if_neg (by simp [hpc])] at hactive
        refine .inl ⟨hactive, ?_⟩
        by_contra htrue
        have hd := hsecond (by simpa using htrue)
        rw [Pc.switched_of_drained hd] at hpc
        cases hpc
    · rfl

theorem Reaches.skip {scope : ScopeId} {rest : List ScopeId} {entry : Invocation.HandlerEntry}
    {entries : List Invocation.HandlerEntry} (h : Reaches r pc i (scope :: rest) (entry :: entries))
    (hg : Gated r i.gates pc)
    (hnot : ¬ ((i.cache.visible i.gates entry.gate).2 = true ∧ entry.scope = scope ∧ entry.key = i.key))
    (p : Invocation.Pc) :
    Reaches r pc { i with cache := (i.cache.visible i.gates entry.gate).1, pc := p } (scope :: rest) entries := by
  -- the entry is not of gate `g` when the cache goes on to name that gate's generation, or none
  have hskip : ∀ g, i.gates.selector g = i.gates.selector r.stagedGate →
      ((i.cache.visible i.gates entry.gate).1.lookup (i.gates.selector r.stagedGate) =
          some (i.gates.generation g) ∨
        (i.cache.visible i.gates entry.gate).1.lookup (i.gates.selector r.stagedGate) = none) →
      Waits r i g (scope :: rest) (entry :: entries) →
        Waits r { i with cache := (i.cache.visible i.gates entry.gate).1, pc := p } g (scope :: rest) entries := by
    intro g hsel hc hw
    refine hw.skip fun hgate hscope hkey => hnot ⟨?_, hscope, hkey⟩
    by_contra hinvisible
    rw [Bool.not_eq_true] at hinvisible
    obtain ⟨a, ha, hne⟩ := VisibilityCache.lookup_of_invisible hinvisible
    rw [show i.gates.selector entry.gate = i.gates.selector r.stagedGate by rw [hgate, hsel]] at ha
    rcases hc with hc | hc
    · rw [ha] at hc
      exact hne ((Option.some.inj hc).trans (by rw [hgate]))
    · rw [ha] at hc
      cases hc
  have hfill := VisibilityCache.lookup_visible_cases i.cache i.gates entry.gate (i.gates.selector r.stagedGate)
  constructor
  · intro hc
    refine hskip r.oldGate hg.selector (hc.imp id And.left) (h.old ?_)
    rcases hc with hc | ⟨hc, hpc⟩
    · rcases hfill with hsame | ⟨hnone, hfills⟩
      · exact .inl (hsame.symm.trans hc)
      · refine .inr ⟨hnone, ?_⟩
        by_contra hs
        rw [Bool.not_eq_false] at hs
        have hactive := hg.active
        rw [if_pos hs] at hactive
        have heq := Option.some.inj (hc.symm.trans hfills)
        exact hg.distinct (hg.unique _ _ hg.selector (heq.trans hactive))
    · rcases hfill with hsame | ⟨hnone, -⟩
      · exact .inr ⟨hsame.symm.trans hc, hpc⟩
      · exact .inr ⟨hnone, hpc⟩
  · intro hc
    refine hskip r.stagedGate rfl (hc.imp id And.left) (h.staged ?_)
    rcases hc with hc | ⟨hc, hpc⟩
    · rcases hfill with hsame | ⟨hnone, hfills⟩
      · exact .inl (hsame.symm.trans hc)
      · refine .inr ⟨hnone, Pc.relocates_of_switched ?_⟩
        by_contra hs
        have hactive := hg.active
        rw [if_neg hs] at hactive
        have heq := Option.some.inj (hc.symm.trans hfills)
        exact hg.distinct (hg.unique _ _ hg.selector (hactive.symm.trans heq.symm))
    · rcases hfill with hsame | ⟨hnone, -⟩
      · exact .inr ⟨hsame.symm.trans hc, hpc⟩
      · exact .inr ⟨hnone, hpc⟩

theorem Named.visible (h : Named i g) (m : Nat) (p : Invocation.Pc) :
    Named { i with cache := (i.cache.visible i.gates m).1, pc := p } g :=
  VisibilityCache.lookup_visible h

theorem stepSnapshot_attempt (hg : Gated r i.gates pc) (h : Handled r pc i) (htarget : r.target ∈ i.scopes)
    (hs : Invocation.stepSnapshot i = some j) : Attempt r pc j := by
  have hattempt := h.attempt
  unfold Attempt at hattempt
  unfold Invocation.stepSnapshot at hs
  cases hpc : i.pc with
  | lock =>
    simp only [hpc] at hs hattempt
    cases hs
    have hbegin := h.attempts htarget i.secondAttempt fun hsecond => by
      rw [hattempt] at hsecond
      cases hsecond
    exact hbegin
  | find scopes entries =>
    simp only [hpc] at hattempt
    obtain ⟨hlooks, hsecond, hreaches⟩ := hattempt
    match scopes, entries with
    | [], entries =>
      obtain ⟨g, e, -, -, -, hahead⟩ := hreaches.waits hlooks
      exact hahead.elim
    | scope :: rest, [] =>
      simp only [hpc] at hs
      cases hs
      exact ⟨hlooks, hsecond, ⟨fun hc => (hreaches.old hc).next, fun hc => (hreaches.staged hc).next⟩⟩
    | scope :: rest, entry :: entries =>
      simp only [hpc] at hs
      cases hs
      by_cases hfound : (i.cache.visible i.gates entry.gate).2 = true ∧ entry.scope = scope ∧ entry.key = i.key
      · rw [if_pos hfound]
        exact ⟨hlooks.visible hg hsecond _ _, hsecond,
          VisibilityCache.lookup_of_visible hfound.1, fun p hp => by cases hp⟩
      · rw [if_neg hfound]
        exact ⟨hlooks.visible hg hsecond _ _, hsecond, hreaches.skip hg hfound _⟩
  | middleware handler entries kept =>
    simp only [hpc] at hattempt
    obtain ⟨hlooks, hsecond, hhandler, hkept⟩ := hattempt
    match entries with
    | [] =>
      simp only [hpc] at hs
      cases hs
      refine ⟨hlooks, hsecond, fun g hin => ?_⟩
      rcases List.mem_cons.mp hin with rfl | hin
      · exact hhandler
      · obtain ⟨p, hp, rfl⟩ := List.mem_map.mp hin
        exact hkept p (Invocation.mem_sortMiddleware.mp hp)
    | entry :: entries =>
      simp only [hpc] at hs
      by_cases hscope : entry.scope ∈ i.scopes
      · rw [if_pos hscope] at hs
        cases hs
        refine ⟨hlooks.visible hg hsecond _ _, hsecond, hhandler.visible _ _, fun p hp => ?_⟩
        split_ifs at hp with hvisible
        · rcases List.mem_append.mp hp with hold | hnew
          · exact (hkept p hold).visible _ _
          · rw [List.mem_singleton] at hnew
            subst hnew
            exact VisibilityCache.lookup_of_visible hvisible.1
        · exact (hkept p hp).visible _ _
      · rw [if_neg hscope] at hs
        cases hs
        exact ⟨hlooks, hsecond, hhandler, hkept⟩
  | acquire chain todo =>
    simp only [hpc] at hattempt
    obtain ⟨hlooks, hsecond, htodo⟩ := hattempt
    match todo with
    | [] =>
      simp only [hpc] at hs
      cases hs
      trivial
    | g :: todo =>
      simp only [hpc] at hs
      split at hs
      · rename_i hnone
        cases hs
        exact hg.refused (hlooks.usable hg (htodo g (List.mem_cons_self ..))) hnone
      · rename_i gates hgates
        cases hs
        obtain ⟨⟨hselector, hgeneration⟩, hactive, -, -⟩ := Gates.acquired_undisturbed hgates
        refine ⟨fun q a ha => ?_, hsecond, fun g hin => ?_⟩
        · dsimp only
          rw [hselector, hgeneration, hactive]
          exact hlooks q a ha
        · unfold Named
          dsimp only
          rw [hselector, hgeneration]
          exact htodo g (List.mem_cons_of_mem _ hin)
  | giveUp =>
    simp only [hpc] at hs hattempt
    split at hs
    · obtain ⟨gates, hgates, rfl⟩ := Option.map_eq_some_iff.mp hs
      exact hattempt
    · split_ifs at hs with hsecond
      · rw [hattempt.1] at hsecond
        cases hsecond
      · cases hs
        exact h.attempts htarget true fun _ => hattempt.2
  | ending =>
    simp only [hpc] at hs
    split at hs
    · obtain ⟨gates, hgates, rfl⟩ := Option.map_eq_some_iff.mp hs
      trivial
    · cases hs
      trivial
  | invoking =>
    simp only [hpc] at hs
    cases hs
  | ended =>
    simp only [hpc] at hs
    cases hs
  | notFound =>
    simp only [hpc] at hs
    cases hs
  | generationChanged =>
    simp only [hpc] at hs
    cases hs

/-! ## The handlers -/

theorem Handled.meanwhile (h : Handled r pc i) (hsame : Gates.Same i.gates j.gates)
    (hactive : ∀ q, q ≠ i.gates.selector r.stagedGate → j.gates.active q = i.gates.active q)
    (hj : j = { i with gates := j.gates, foreign := j.foreign })
    (hswitched : pc.switched = true → pc'.switched = true)
    (hdrained : pc.drained = true → pc'.drained = true)
    (hretires : pc'.retiresOld = false → pc.retiresOld = false)
    (hready : pc' = .adopted →
      ∃ e ∈ i.registry.handlers, e.id ∈ r.handlers ∧ e.gate = r.stagedGate ∧ e.key = i.key)
    (hrelocates : pc'.relocates = true → pc.relocates = true) : Handled r pc' j := by
  generalize j.gates = gates at hsame hactive hj
  generalize j.foreign = foreign at hj
  subst hj
  exact ⟨h.ids, fun hpc => h.old (hretires hpc), hready, fun hpc => h.staged (hrelocates hpc), h.caller,
    h.attempt.meanwhile hsame hactive rfl rfl rfl rfl (fun _ => rfl) hswitched hdrained
      fun _ => hrelocates⟩

theorem mem_commitRevision {reg : Invocation.RegistryState} {handlers middleware : List Nat}
    {scope : ScopeId} {e : Invocation.HandlerEntry} :
    e ∈ (reg.commitRevision handlers middleware scope).handlers ↔
      ∃ e₀ ∈ reg.handlers, e = if e₀.id ∈ handlers then { e₀ with scope := scope } else e₀ := by
  unfold Invocation.RegistryState.commitRevision
  simp only [List.mem_map]
  exact ⟨fun ⟨e₀, h, heq⟩ => ⟨e₀, h, heq.symm⟩, fun ⟨e₀, h, heq⟩ => ⟨e₀, h, heq.symm⟩⟩

theorem Handled.relocates {scope : ScopeId} (h : Handled r pc i) (hdistinct : r.oldGate ≠ r.stagedGate)
    (hj : i.change (i.registry.commitRevision r.handlers r.middleware scope) = some j)
    (hswitched : pc.switched = true → pc'.switched = true)
    (hdrained : pc.drained = true → pc'.drained = true)
    (hretires : pc'.retiresOld = false → pc.retiresOld = false) (hpc : pc' ≠ .adopted)
    (hrelocates : pc'.relocates = true → pc = .adopted ∧ scope = r.target) : Handled r pc' j := by
  obtain ⟨hlocks, rfl⟩ := change_eq hj
  refine ⟨?_, fun hnot => ?_, fun heq => absurd heq hpc, fun hrel => ?_, h.caller, ?_⟩
  · intro e he hid
    obtain ⟨e₀, he₀, rfl⟩ := mem_commitRevision.mp he
    split_ifs at hid ⊢ with hin
    · exact h.ids e₀ he₀ hin
    · exact h.ids e₀ he₀ hid
  · obtain ⟨e, he, hgate, hscope, hkey⟩ := h.old (hretires hnot)
    refine ⟨e, mem_commitRevision.mpr ⟨e, he, ?_⟩, hgate, hscope, hkey⟩
    refine (if_neg fun hin => hdistinct ?_).symm
    rw [← hgate]
    exact h.ids e he hin
  · obtain ⟨rfl, rfl⟩ := hrelocates hrel
    obtain ⟨e, he, hid, hgate, hkey⟩ := h.ready rfl
    refine ⟨{ e with scope := r.target }, mem_commitRevision.mpr ⟨e, he, ?_⟩, hgate, rfl, hkey⟩
    exact (if_pos hid).symm
  · refine h.attempt.meanwhile (.refl _) (fun _ _ => rfl) rfl rfl rfl rfl ?_ hswitched hdrained ?_
    · intro hl
      rw [hlocks] at hl
      cases hl
    · intro hl
      rw [hlocks] at hl
      cases hl

/-- The staged revision handles the key when its commit begins. -/
def StagedHandles (r : Plan) (s : State) : Label → Prop
  | .reload fail => s.pc = .staged → fail = false →
      ∃ e ∈ s.invocation.registry.handlers, e.id ∈ r.handlers ∧ e.gate = r.stagedGate ∧
        e.key = s.invocation.key
  | _ => True

theorem stepReload_handled {fail : Bool} (hg : Gated r s.gates s.pc) (h : Handled r s.pc s.invocation)
    (hok : StagedHandles r s (.reload fail)) (hs : stepReload r s fail = some s') :
    Handled r s'.pc s'.invocation := by
  obtain ⟨-, hsame, -, hswitched, hdrained, -, hactive⟩ := stepReload_progress hg hs
  unfold stepReload at hs
  cases hpc : s.pc with
  | staged =>
    rw [hpc] at hs
    dsimp only at hs
    split_ifs at hs with hfail <;> cases hs
    · exact h.meanwhile hsame hactive rfl hswitched hdrained (by rw [hpc]; exact id) nofun nofun
    · refine h.meanwhile hsame hactive rfl hswitched hdrained (by rw [hpc]; exact id) (fun _ => ?_) nofun
      exact hok hpc (by simpa using hfail)
  | adopted =>
    rw [hpc] at hs
    obtain ⟨i, hi, rfl⟩ := Option.map_eq_some_iff.mp hs
    exact h.relocates hg.distinct hi hswitched hdrained (by rw [hpc]; exact id) nofun fun _ => ⟨hpc, rfl⟩
  | relocated =>
    rw [hpc] at hs
    dsimp only at hs
    split_ifs at hs <;> cases hs
    · exact h.meanwhile hsame hactive rfl hswitched hdrained (by rw [hpc]; exact id) nofun
        (by rw [hpc]; exact id)
    · exact h.meanwhile hsame hactive rfl hswitched hdrained (by rw [hpc]; exact id) nofun nofun
  | cut pc =>
    rw [hpc] at hs
    obtain ⟨p, hp, rfl⟩ := Option.map_eq_some_iff.mp hs
    refine h.meanwhile hsame hactive rfl hswitched hdrained (by rw [hpc]; exact fun _ => rfl) ?_
      (by rw [hpc]; exact fun _ => rfl)
    intro hc
    change Pc.afterCut p.2 = _ at hc
    unfold Pc.afterCut at hc
    split at hc <;> cases hc
  | replace =>
    rw [hpc] at hs
    cases hs
    exact h.meanwhile hsame hactive rfl hswitched hdrained (by rw [hpc]; exact id) nofun
      (by rw [hpc]; exact id)
  | committed =>
    rw [hpc] at hs
    cases hs
    exact h.meanwhile hsame hactive rfl hswitched hdrained (by rw [hpc]; exact fun _ => rfl) nofun
      (by rw [hpc]; exact id)
  | undo =>
    rw [hpc] at hs
    obtain ⟨i, hi, rfl⟩ := Option.map_eq_some_iff.mp hs
    exact h.relocates hg.distinct hi hswitched hdrained (by rw [hpc]; exact id) nofun nofun
  | restore =>
    rw [hpc] at hs
    cases hs
    exact h.meanwhile hsame hactive rfl hswitched hdrained (by rw [hpc]; exact id) nofun nofun
  | closing committed pc =>
    rw [hpc] at hs
    obtain ⟨p, hp, rfl⟩ := Option.map_eq_some_iff.mp hs
    have hflags : (Pc.afterClose committed p.2).retiresOld = (Pc.closing committed pc).retiresOld ∧
        (Pc.afterClose committed p.2).relocates = (Pc.closing committed pc).relocates ∧
          Pc.afterClose committed p.2 ≠ .adopted := by
      unfold Pc.afterClose
      cases committed <;> split <;> simp [Pc.retiresOld, Pc.relocates]
    refine h.meanwhile hsame hactive rfl hswitched hdrained ?_ (fun hc => absurd hc hflags.2.2) ?_
    · rw [hpc, ← hflags.1]
      exact id
    · rw [hpc, ← hflags.2.1]
      exact id
  | ended committed =>
    rw [hpc] at hs
    cases hs

theorem Handled.changes {reg : Invocation.RegistryState} (h : Handled r pc i) (hj : i.change reg = some j)
    (hids : ∀ e ∈ reg.handlers, e.id ∈ r.handlers → e.gate = r.stagedGate)
    (hkept : ∀ e ∈ i.registry.handlers, e.gate = r.oldGate ∧ pc.retiresOld = false ∨
      e.gate = r.stagedGate ∧ pc.retiresStaged = false → e ∈ reg.handlers) : Handled r pc j := by
  obtain ⟨hlocks, rfl⟩ := change_eq hj
  refine ⟨hids, fun hpc => ?_, fun hpc => ?_, fun hpc => ?_, h.caller, ?_⟩
  · obtain ⟨e, he, hgate, hrest⟩ := h.old hpc
    exact ⟨e, hkept e he (.inl ⟨hgate, hpc⟩), hgate, hrest⟩
  · obtain ⟨e, he, hid, hgate, hrest⟩ := h.ready hpc
    refine ⟨e, hkept e he (.inr ⟨hgate, ?_⟩), hid, hgate, hrest⟩
    rw [hpc]
    rfl
  · obtain ⟨e, he, hgate, hrest⟩ := h.staged hpc
    refine ⟨e, hkept e he (.inr ⟨hgate, ?_⟩), hgate, hrest⟩
    unfold Pc.relocates at hpc
    unfold Pc.retiresStaged
    split at hpc <;> first | rfl | cases hpc
  · refine h.attempt.meanwhile (.refl _) (fun _ _ => rfl) rfl rfl rfl rfl ?_ id id fun _ => id
    intro hl
    rw [hlocks] at hl
    cases hl

theorem Handled.leases {gates : Gates} {foreign : Nat → Nat} (h : Handled r pc i)
    (hgates : Gates.Undisturbed i.gates gates) :
    Handled r pc { i with gates := gates, foreign := foreign } :=
  h.meanwhile hgates.toSame (fun q _ => congrFun hgates.active q) rfl id id id h.ready id

theorem stepSnapshot_frame (hs : Invocation.stepSnapshot i = some j) :
    j.registry = i.registry ∧ j.scopes = i.scopes ∧ j.key = i.key := by
  unfold Invocation.stepSnapshot at hs
  split at hs
  · cases hs
    exact ⟨rfl, rfl, rfl⟩
  · cases hs
    exact ⟨rfl, rfl, rfl⟩
  · cases hs
    exact ⟨rfl, rfl, rfl⟩
  · cases hs
    exact ⟨rfl, rfl, rfl⟩
  · cases hs
    exact ⟨rfl, rfl, rfl⟩
  · split_ifs at hs <;> cases hs <;> exact ⟨rfl, rfl, rfl⟩
  · cases hs
    exact ⟨rfl, rfl, rfl⟩
  · split at hs <;> cases hs <;> exact ⟨rfl, rfl, rfl⟩
  · split at hs
    · obtain ⟨gates, -, rfl⟩ := Option.map_eq_some_iff.mp hs
      exact ⟨rfl, rfl, rfl⟩
    · split_ifs at hs <;> cases hs <;> exact ⟨rfl, rfl, rfl⟩
  · split at hs
    · obtain ⟨gates, -, rfl⟩ := Option.map_eq_some_iff.mp hs
      exact ⟨rfl, rfl, rfl⟩
    · cases hs
      exact ⟨rfl, rfl, rfl⟩
  all_goals cases hs

theorem Handled.moves (h : Handled r pc i) (hregistry : j.registry = i.registry)
    (hscopes : j.scopes = i.scopes) (hkey : j.key = i.key) (hattempt : Attempt r pc j) :
    Handled r pc j := by
  refine ⟨?_, ?_, ?_, ?_, ?_, hattempt⟩
  · rw [hregistry]
    exact h.ids
  · rw [hregistry, hkey]
    exact h.old
  · rw [hregistry, hkey]
    exact h.ready
  · rw [hregistry, hkey]
    exact h.staged
  · rw [hscopes]
    exact h.caller

theorem invocation_handled {l : Invocation.Label} (hg : Gated r s.gates s.pc)
    (h : Handled r s.pc s.invocation) (hok : Alone r s (.invocation l))
    (hs : Invocation.step s.invocation l = some j) : Handled r s.pc j := by
  cases l with
  | registerHandler entry =>
    refine h.changes hs (fun e he hid => ?_) fun e he _ => List.mem_append_left _ he
    rcases List.mem_append.mp he with hold | hnew
    · exact h.ids e hold hid
    · rw [List.mem_singleton] at hnew
      subst hnew
      exact hok hid
  | registerMiddleware entry => exact h.changes hs h.ids fun e he _ => he
  | removeHandler n =>
    refine h.changes hs (fun e he hid => h.ids e (List.mem_filter.mp he).1 hid) fun e he hstays => ?_
    refine List.mem_filter.mpr ⟨he, decide_eq_true fun hid => ?_⟩
    obtain ⟨hold, hnew⟩ := hok e he hid
    rcases hstays with ⟨hgate, hpc⟩ | ⟨hgate, hpc⟩
    · rw [hold hgate] at hpc
      cases hpc
    · rw [hnew hgate] at hpc
      cases hpc
  | removeMiddleware n => exact h.changes hs h.ids fun e he _ => he
  | commitRevision handlers middleware target => exact hok.elim
  | gateOp g op => exact hok.elim
  | gate n => exact hok.elim
  | lease g =>
    obtain ⟨gates, hgates, rfl⟩ := Option.map_eq_some_iff.mp hs
    exact h.leases (Gates.acquired_undisturbed hgates)
  | unlease g =>
    simp only [Invocation.step] at hs
    split_ifs at hs
    obtain ⟨gates, hgates, rfl⟩ := Option.map_eq_some_iff.mp hs
    exact h.leases (Gates.dropped_undisturbed hgates)
  | snapshot =>
    obtain ⟨hregistry, hscopes, hkey⟩ := stepSnapshot_frame hs
    refine h.moves hregistry hscopes hkey (stepSnapshot_attempt hg h (h.caller.resolve_left hok) hs)
  | chain c =>
    obtain ⟨hgates, hregistry, hscopes, hkey, hpc⟩ := stepChain_frame hs
    refine h.moves hregistry hscopes hkey ?_
    rcases hpc with ⟨hpc, hsecond, hcache⟩ | hending
    · refine h.attempt.meanwhile ?_ ?_ hpc hsecond hcache hkey (fun _ => hregistry) id id fun _ => id
      · rw [hgates]
        exact .refl _
      · intro q _
        rw [hgates]
    · unfold Attempt
      rw [hending]
      trivial

theorem handled_step {l : Label} (hg : Gated r s.gates s.pc) (h : Handled r s.pc s.invocation)
    (hok : Alone r s l) (hstaged : StagedHandles r s l) (hs : step r s l = some s') :
    Handled r s'.pc s'.invocation := by
  cases l with
  | reload fail => exact stepReload_handled hg h hstaged hs
  | invoke scope chain =>
    simp only [step] at hs
    split_ifs at hs with hready
    cases hs
    obtain ⟨hpc, -, -, hchain⟩ := hready
    refine ⟨h.ids, h.old, h.ready, h.staged, .inr ?_, ?_⟩
    · exact List.mem_reverse.mpr (mem_ancestry hok hchain)
    · exact h.attempt.meanwhile (.refl _) (fun _ _ => rfl) rfl rfl rfl rfl (fun _ => rfl) id id fun _ => id
  | invocation l =>
    obtain ⟨i, hi, rfl⟩ := Option.map_eq_some_iff.mp hs
    have hnext := invocation_handled hg h hok hi
    exact hnext
  | lookup fiber scope symbol =>
    cases hs
    exact h
  | ancestry n chain =>
    simp only [step] at hs
    split at hs
    · split_ifs at hs
      cases hs
      exact h
    · cases hs
  | advance n =>
    simp only [step] at hs
    split at hs
    · obtain ⟨hpc, hsame | ⟨gates, foreign, hgates, hmoved⟩⟩ := stepLookup_invocation hs
      · rw [hpc, hsame]
        exact h
      · rw [hpc, hmoved]
        exact h.leases hgates
    · cases hs
  | insert scope symbol entry =>
    simp only [step] at hs
    split_ifs at hs
    cases hs
    exact h
  | remove fiber scope symbol =>
    simp only [step] at hs
    split_ifs at hs <;> cases hs <;> exact h
  | bump =>
    simp only [step] at hs
    split_ifs at hs
    cases hs
    exact h

/-! ## The theorem -/

/-- Before the commit: the old revision is published, the staged one is not, and every gate that is
visible takes leases. The staging Scope is a child of the target, and no lookup has begun. -/
structure Ready (r : Plan) (s : State) : Prop extends r.Proper where
  pc : s.pc = .staged
  selector : s.gates.selector r.oldGate = s.gates.selector r.stagedGate
  unique : ∀ g g', s.gates.selector g = s.gates.selector g' →
    s.gates.generation g = s.gates.generation g' → g = g'
  distinct : r.oldGate ≠ r.stagedGate
  active : s.gates.active (s.gates.selector r.stagedGate) = s.gates.generation r.oldGate
  staged : s.gates.accepting r.stagedGate = true
  accepting : ∀ g, s.gates.isVisible g = true → s.gates.accepting g = true
  parent : s.parent r.source = some r.target
  invocation : s.invocation.pc = .lock ∧ s.invocation.secondAttempt = false ∧ s.invocation.scopes = []
  lookups : s.lookups = []
  ids : ∀ e ∈ s.invocation.registry.handlers, e.id ∈ r.handlers → e.gate = r.stagedGate
  owner : ∀ a k e, s.services.entries a k = some e → e.owner = r.stagedOwner → e.gate = r.stagedGate

/-- The old revision handles the key of the invocation. -/
def OldHandles (r : Plan) (s : State) : Prop :=
  ∃ e ∈ s.invocation.registry.handlers, e.gate = r.oldGate ∧ e.scope = r.target ∧ e.key = s.invocation.key

/-- The old revision provides the service, and since its publication bumped the epoch the cache has
not said for a Scope at or below that there is none. -/
structure OldProvides (r : Plan) (k : ServiceSymbol) (s : State) : Prop where
  entry : ∃ e, s.services.entries r.target k = some e ∧ e.owner = r.oldOwner ∧ e.gate = r.oldGate
  sound : ∀ a, Below s.parent r.target a → s.services.Sound a k

theorem Ready.gated (h : Ready r s) : Gated r s.gates s.pc := by
  have hactive := h.active
  rw [h.pc]
  refine ⟨h.selector, h.unique, h.distinct, hactive, ?_, fun _ => h.staged, fun g _ _ => h.accepting g⟩
  refine h.accepting _ (Gates.isVisible_iff.mpr ?_)
  rw [h.selector]
  exact hactive

theorem Ready.handled (h : Ready r s) (hold : OldHandles r s) : Handled r s.pc s.invocation := by
  obtain ⟨hpc, hsecond, hscopes⟩ := h.invocation
  refine ⟨h.ids, fun _ => hold, ?_, ?_, .inl hscopes, ?_⟩
  · rw [h.pc]
    exact nofun
  · rw [h.pc]
    exact nofun
  · unfold Attempt
    rw [hpc]
    exact hsecond

theorem Ready.supplied {k : ServiceSymbol} (h : Ready r s) (hold : OldProvides r k s) :
    Supplied r k (Below s.parent r.target) s := by
  refine ⟨fun _ ha => ha, h.parent, h.owner, ?_, ?_, hold.sound, ?_, ?_⟩
  · rw [h.pc]
    exact hold.entry
  · rw [h.pc]
    exact nofun
  · rw [h.lookups]
    exact fun l hl => by cases hl
  · rw [h.lookups]
    exact fun l hl => by cases hl

/-- **A reload does not interrupt its capabilities**: through a cutover or a rollback, no snapshot by a
caller at or below the target Scope fails to find the handler of a key that both revisions handle, or to
lease it, and no `try_get` there fails to find a service that both provide, or to lease it. -/
theorem reload_keeps_available (r : Plan) (s₀ : State) (hready : Ready r s₀) :
    (OldHandles r s₀ →
      ∀ s, Reach (step r) (fun s l => Alone r s l ∧ StagedHandles r s l) s₀ s →
        s.invocation.pc ≠ .notFound ∧ s.invocation.pc ≠ .generationChanged) ∧
    ∀ k ∈ r.symbols, OldProvides r k s₀ →
      ∀ s, Reach (step r) (Alone r) s₀ s →
        ∀ l ∈ s.lookups, l.symbol = k → Below s₀.parent r.target l.scope →
          l.pc ≠ .notFound ∧ ∀ provider, l.pc ≠ .draining provider := by
  constructor
  · intro hold s hreach
    have hinv : Gated r s.gates s.pc ∧ Handled r s.pc s.invocation :=
      hreach.invariant (I := fun s => Gated r s.gates s.pc ∧ Handled r s.pc s.invocation)
        ⟨hready.gated, hready.handled hold⟩ fun t a u hinv hok hs =>
          ⟨gated_step hinv.1 hok.1 hs, handled_step hinv.1 hinv.2 hok.1 hok.2 hs⟩
    have hattempt := hinv.2.attempt
    unfold Attempt at hattempt
    constructor <;> intro hpc <;> rw [hpc] at hattempt <;> exact hattempt
  · intro k hk hold s hreach l hl hsymbol hbelow
    have hinv : Gated r s.gates s.pc ∧ Supplied r k (Below s₀.parent r.target) s :=
      hreach.invariant (I := fun s => Gated r s.gates s.pc ∧ Supplied r k (Below s₀.parent r.target) s)
        ⟨hready.gated, hready.supplied hold⟩ fun t a u hinv hok hs =>
          ⟨gated_step hinv.1 hok hs, supplied_step hready.toProper hk hinv.1 hinv.2 hok hs⟩
    have hserved := hinv.2.served l hl hsymbol hbelow
    unfold Served at hserved
    constructor
    · intro hpc
      rw [hpc] at hserved
      exact hserved
    · intro provider hpc
      rw [hpc] at hserved
      exact hserved

/-! ## A run -/

/-- Fiber `1` in Scope `0` is reloaded by Fiber `2` in the staging Scope `1`; both handle key `0` and
provide service `0`. -/
def plan : Plan where
  source := 1
  target := 0
  symbols := [0]
  oldOwner := 1
  stagedOwner := 2
  oldGate := 0
  stagedGate := 1
  children := []
  handlers := [1]
  middleware := []

def prepared : State where
  invocation := ⟨Dispatch.twoGates, fun _ => 0, [], ⟨[⟨0, 0, 0, 0⟩, ⟨1, 1, 0, 1⟩], []⟩, [], 0, .lock, false,
    [], [], [], []⟩
  parent a := if a = 1 then some 0 else none
  services := ⟨fun a k => if a = 0 ∧ k = 0 then some ⟨1, 0, 0⟩ else if a = 1 ∧ k = 0 then some ⟨2, 1, 1⟩ else none,
    0, [], 8⟩
  lookups := []
  pc := .staged

theorem ready_prepared : Ready plan prepared where
  source := by simp [plan]
  target := by simp [plan]
  apart := by decide
  pc := rfl
  selector := rfl
  unique g g' _ hgeneration := Nat.succ.inj hgeneration
  distinct := by decide
  active := rfl
  staged := rfl
  accepting _ _ := rfl
  parent := rfl
  invocation := ⟨rfl, rfl, rfl⟩
  lookups := rfl
  ids := by decide
  owner a k e he howner := by
    change (if _ then _ else _) = some e at he
    split_ifs at he <;> cases he
    · cases howner
    · rfl

/-- A check that suffices for a step of others beside the reload; a Fiber `5` that provides nothing is
the only one that looks up. -/
def aloneCheck (s : State) : Label → Bool
  | .reload _ => (s.invocation.registry.handlers.any fun e => e.id = 1 ∧ e.gate = 1 ∧ e.key = s.invocation.key)
  | .invoke scope _ => scope == 0
  | .invocation .snapshot => ! s.invocation.scopes.isEmpty
  | .ancestry .. | .advance _ => true
  | _ => false

theorem alone_of_check {s : State} {l : Label} (h : aloneCheck s l = true) :
    Alone plan s l ∧ StagedHandles plan s l := by
  cases l with
  | reload fail =>
    refine ⟨trivial, fun _ _ => ?_⟩
    simp only [aloneCheck, List.any_eq_true, decide_eq_true_eq] at h
    obtain ⟨e, he, hid, hgate, hkey⟩ := h
    exact ⟨e, he, by simp [hid, plan], hgate, hkey⟩
  | invoke scope chain =>
    simp only [aloneCheck, beq_iff_eq] at h
    subst h
    exact ⟨.refl, trivial⟩
  | invocation l =>
    cases l with
    | snapshot =>
      refine ⟨fun hempty => ?_, trivial⟩
      simp [aloneCheck, hempty] at h
    | _ => cases h
  | ancestry n chain => exact ⟨trivial, trivial⟩
  | advance n => exact ⟨trivial, trivial⟩
  | _ => cases h

/-- The lookup of Fiber `5` resolves the old entry, and the old gate drains before it takes its lease;
then it resolves the new one. The snapshot begins when the registrations have moved. -/
def reloadRun : List Label :=
  [Label.invoke 0 [0], .ancestry 0 [0], .advance 0, .advance 0, .advance 0] ++
    List.replicate 3 (Label.reload false) ++ [Label.invocation .snapshot] ++
    List.replicate 4 (Label.reload false) ++ [Label.advance 0] ++
    List.replicate 2 (Label.reload false) ++ [Label.ancestry 0 [0]] ++ List.replicate 4 (Label.advance 0) ++
    List.replicate 5 (Label.invocation .snapshot)

def admitted : State := { prepared with lookups := [⟨5, 0, 0, false, .admitted⟩] }

def reloaded : State := ((run (step plan) admitted reloadRun).getD admitted)

theorem reload_keeps_available_run :
    (reloaded.invocation.pc ≠ .notFound ∧ reloaded.invocation.pc ≠ .generationChanged) ∧
      ∀ l ∈ reloaded.lookups, l.symbol = 0 → Below prepared.parent 0 l.scope → l.pc ≠ .notFound := by
  have hrun : runIf (step plan) (fun s l => aloneCheck s l = true) admitted reloadRun = some reloaded := rfl
  have hfirst : Reach (step plan) (fun s l => Alone plan s l ∧ StagedHandles plan s l) prepared admitted := by
    refine Reach.refl.tail (a := .lookup 5 0 0) ⟨fun a e he => ?_, trivial⟩ rfl
    change (if _ then _ else _) = some e at he
    split_ifs at he <;> cases he <;> decide
  have hreach := hfirst.trans ((reach_of_runIf hrun).mono fun _ _ => alone_of_check)
  obtain ⟨hinvocation, hservices⟩ := reload_keeps_available plan prepared ready_prepared
  refine ⟨hinvocation ⟨⟨0, 0, 0, 0⟩, by decide, rfl, rfl, rfl⟩ reloaded hreach, fun l hl hsymbol hbelow => ?_⟩
  refine (hservices 0 (by decide) ⟨⟨⟨1, 0, 0⟩, rfl, rfl, rfl⟩, fun a _ c hc => by cases hc⟩ reloaded
    (hreach.mono fun _ _ h => h.1) l hl hsymbol hbelow).1

end Cordis.Revision
