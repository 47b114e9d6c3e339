import Cordis.Library.History
import Cordis.Proof.Publishing
import Cordis.Runtime.Activations

/-!
# A failed activation is invisible

A gate is begun by one activation, of the Fiber whose gate it is. The selector is switched to it by the
commit of that activation, or by the cutover to the Fiber whose activation has deferred its commit; so it was
never named if the activation fails, and it was named once if the activation commits.
-/

namespace Cordis.Runtime

open Machine

variable {rt rt' : Runtime} {f : FiberId} {c c' : FiberCell} {l : RuntimeLabel} {log : List ActivationEvent}

/-! ## What is noted -/

/-- What a section leaves in the log. -/
inductive Chronicle (rt : Runtime) (l : RuntimeLabel) (rt' : Runtime) : List ActivationEvent → Prop
  | quiet : Chronicle rt l rt' []
  | began (f : FiberId) (n : Nat) (c c' : FiberCell) (was : rt.fibers f = some c) (now : rt'.fibers f = some c')
      (step : c.step (.activationBegin n rt.admission (.ok (rt.nextGeneration c.plugin))) = some c')
      (selecting : c'.activations n = some .selecting) :
      Chronicle rt l rt' [.began f n (gateOf c') c'.inner.staged]
  | committed (f : FiberId) (n : Nat) (c c' : FiberCell) (was : rt.fibers f = some c)
      (now : rt'.fibers f = some c') (before : c.activations n = some .checked)
      (after : c'.activations n = some .committed) :
      Chronicle rt l rt' [.switched (gateOf c) (.commit f n .Starting true true)]
  | cut (old f : FiberId) (c : FiberCell) (was : rt.fibers f = some c) (flag : c.inner.staged = true)
      (active : c.inner.state = .Active) : Chronicle rt l rt' [.switched (gateOf c) (.cutover old f)]

theorem chronicle_begin {n : Nat} {a : Bool} {x : Except CordisError GenerationId}
    (h : rt.step (.fiber f (.activationBegin n a x)) = some rt') :
    Chronicle rt (.fiber f (.activationBegin n a x)) rt' (beginsNote rt' f n) := by
  obtain ⟨c, a', c', hc, ha', hstep, rfl⟩ := fiberStep_spec h
  cases ha'
  have hc' : (fiberEffect f c c' (.activationBegin n rt.admission (.ok (rt.nextGeneration c.plugin)))
      (rt.setFiber f c')).fibers f = some c' := by
    rw [(fiberEffect_fibers _ _ hstep).1]
    exact Function.update_self ..
  unfold beginsNote
  rw [hc']
  dsimp only
  split
  · rename_i hselecting
    exact .began f n c c' hc hc' hstep hselecting
  · exact .quiet

theorem chronicle_commit {n : Nat} {o : Outcome} {g : GenerationId}
    (h : rt.step (.fiber f (.activationCommit n o g)) = some rt') :
    Chronicle rt (.fiber f (.activationCommit n o g)) rt' (publishNote rt rt' f fun c =>
      .commit f n c.inner.state c.inner.activationSealed (hasChecked c n)) := by
  obtain ⟨c, a', c', hc, ha', hstep, rfl⟩ := fiberStep_spec h
  cases ha'
  generalize (if rt.admission then Except.ok () else Except.error CordisError.RuntimeShuttingDown) = admitted
    at hstep h ⊢
  unfold publishNote
  rw [hc]
  dsimp only
  split_ifs with hswitch
  swap
  · exact .quiet
  obtain ⟨hwas, hnow⟩ := Bool.and_eq_true_iff.mp hswitch
  rw [Bool.not_eq_eq_eq_not, Bool.not_true] at hwas
  have hcommit : c.inner.state = .Starting ∧ c'.inner.state = .Active := by
    by_contra hno
    simp only [fiberEffect, hno, if_false] at hnow
    rw [show (rt.setFiber f c').visible (gateOf c) = rt.visible (gateOf c) from rfl, hwas] at hnow
    contradiction
  obtain ⟨hbefore, hafter, hsealed, -⟩ := step_committed hstep hcommit.1 hcommit.2
  have hself := (fiberEffect_fibers f (rt.setFiber f c') hstep).1
  rw [hcommit.1, hsealed, show hasChecked c n = true by simp [hasChecked, hbefore]]
  refine .committed f n c c' hc ?_ hbefore hafter
  rw [hself]
  exact Function.update_self ..

theorem chronicle_cut (ht : Topology rt) {old staged : FiberId} {staging target : ScopeId}
    (h : rt.step (.commitReload old staged staging target) = some rt') :
    Chronicle rt (.commitReload old staged staging target) rt'
      (publishNote rt rt' staged fun _ => .cutover old staged) := by
  unfold publishNote
  split
  · rename_i c hc
    split_ifs with hswitch
    swap
    · exact .quiet
    obtain ⟨hwas, hnow⟩ := Bool.and_eq_true_iff.mp hswitch
    rcases commitReload_cases ht h with hsame | ⟨oldCell, d, hcut, -⟩
    · have hsel : rt'.visible (gateOf c) = rt.visible (gateOf c) := by
        unfold visible
        rw [hsame.rest]
      rw [← hsel, hnow] at hwas
      contradiction
    · rw [hcut.stagedFiber] at hc
      cases hc
      exact .cut old staged c hcut.stagedFiber hcut.flag hcut.active
  · exact .quiet

theorem step_chronicle (ht : Topology rt) (h : rt.step l = some rt') :
    Chronicle rt l rt' (activationNote rt l rt') := by
  unfold activationNote
  split
  · exact chronicle_begin h
  · exact chronicle_commit h
  · exact chronicle_cut ht h
  · exact .quiet

theorem visible_gateOf (rt : Runtime) (c : FiberCell) :
    rt.visible (gateOf c) = (rt.selectors c.plugin == c.generation) := rfl

/-! ## What is known of an activation -/

theorem publications_append (log new : List ActivationEvent) (g : Gate) :
    publications (log ++ new) g = publications log g ++ publications new g :=
  List.filterMap_append

theorem publications_began (n : Nat) (g h : Gate) (b : Bool) : publications [.began f n g b] h = [] := rfl

theorem publications_switched {g h : Gate} {by_ : Publication} (hne : publications [.switched g by_] h ≠ []) :
    h = g ∧ publications [.switched g by_] h = [by_] := by
  by_cases heq : g = h
  · subst heq
    exact ⟨rfl, by simp [publications]⟩
  · exact absurd (by simp [publications, heq]) hne

/-- What the log tells of a Fiber. -/
structure Told (log : List ActivationEvent) (f : FiberId) (c : FiberCell) : Prop where
  sound : c.Sound
  seated : c.Seated
  issued : c.Issued
  resting : c.Resting
  begun : ∀ n g b, .began f n g b ∈ log → ∃ pc, c.activations n = some pc ∧ pc.early = false
  working : ∀ n pc, c.activations n = some pc → pc.working = true → ∃ b, .began f n (gateOf c) b ∈ log
  spent : ∀ n b, .began f n (gateOf c) b ∈ log → c.Spent
  active : c.inner.state = .Active ∨ c.inner.state = .Reloading →
    ∃ n b pc, .began f n (gateOf c) b ∈ log ∧ c.activations n = some pc ∧ pc.succeeded = true
  flag : ∀ n g, .began f n g false ∈ log → c.inner.staged = false
  switched : ∀ n g b, .began f n g b ∈ log → publications log g ≠ [] →
    ∃ pc, c.activations n = some pc ∧ pc.succeeded = true
  committed : ∀ n g pc, .began f n g false ∈ log → c.activations n = some pc → pc.succeeded = true →
    publications log g = [.commit f n .Starting true true]

/-- What the log of a run is like. -/
structure Chronicled (rt : Runtime) (log : List ActivationEvent) : Prop where
  topology : Topology rt
  numbered : Numbered rt
  fibers : ∀ f c, rt.fibers f = some c → Told log f c
  known : ∀ f n g b, .began f n g b ∈ log → ∃ c, rt.fibers f = some c
  fresh : ∀ f n g b, .began f n g b ∈ log → 0 < g.generation ∧ g.generation < rt.nextGeneration g.plugin
  owner : ∀ f n g b, .began f n g b ∈ log → ∀ f' c, rt.fibers f' = some c → gateOf c = g → f' = f
  once : ∀ f n g b f' n' b', .began f n g b ∈ log → .began f' n' g b' ∈ log → f = f' ∧ n = n' ∧ b = b'
  single : ∀ f n g b g' b', .began f n g b ∈ log → .began f n g' b' ∈ log → g = g' ∧ b = b'
  began : ∀ g, publications log g ≠ [] → ∃ f n b, .began f n g b ∈ log
  shown : ∀ p, rt.selectors p ≠ .NONE → publications log ⟨p, rt.selectors p⟩ ≠ []

theorem chronicled_new : Chronicled .new [] where
  topology := topology_new
  numbered := numbered_new
  fibers := fun _ _ h => by cases h
  known := fun _ _ _ _ h => by cases h
  fresh := fun _ _ _ _ h => by cases h
  owner := fun _ _ _ _ h => by cases h
  once := fun _ _ _ _ _ _ _ h => by cases h
  single := fun _ _ _ _ _ _ h => by cases h
  began := fun _ h => absurd rfl h
  shown := fun _ h => absurd rfl h

theorem told_created (id : FiberId) (plugin : PluginId) (scope : ScopeId) (descriptor : PluginDescriptor)
    (generation : GenerationId) (staged : Bool) (hnew : ∀ n g b, .began f n g b ∉ log) :
    Told log f (.created id plugin scope descriptor generation staged) where
  sound := sound_created ..
  seated := seated_created ..
  issued := fun _ _ h => by cases h
  resting := fun _ => rfl
  begun := fun n g b h => absurd h (hnew n g b)
  working := fun _ _ h => by cases h
  spent := fun n b h => absurd h (hnew n _ b)
  active := by simp [FiberCell.created, FiberMutable.created]
  flag := fun n g h => absurd h (hnew n g false)
  switched := fun n g b h => absurd h (hnew n g b)
  committed := fun _ _ _ _ h => by cases h

/-- The gate of an activation that begins now. -/
structure Beginning (rt : Runtime) (log : List ActivationEvent) (rt' : Runtime) (f : FiberId) (n : Nat) (g : Gate)
    (b : Bool) (c c' : FiberCell) : Prop where
  was : rt.fibers f = some c
  now : rt'.fibers f = some c'
  locked : c.activations n = some .locked
  selecting : c'.activations n = some .selecting
  starting : c'.inner.state = .Starting
  gate : g = gateOf c'
  flag : b = c'.inner.staged
  unbegun : ∀ f' m b', .began f' m g b' ∉ log

theorem step_beginning (hch : Chronicled rt log) (h : rt.step l = some rt') {n : Nat} {g : Gate} {b : Bool}
    (hbegan : .began f n g b ∈ activationNote rt l rt') :
    activationNote rt l rt' = [.began f n g b] ∧ ∃ c c', Beginning rt log rt' f n g b c c' := by
  have hchronicle := step_chronicle hch.topology h
  generalize activationNote rt l rt' = note at hchronicle hbegan
  cases hchronicle with
  | quiet => cases hbegan
  | committed | cut => cases List.mem_singleton.mp hbegan
  | began _ _ c c' was now step selecting =>
    cases List.mem_singleton.mp hbegan
    obtain ⟨hlocked, hbegins⟩ := step_begins step
    refine ⟨rfl, c, c', ?_⟩
    have hplugin : c'.plugin = c.plugin := (step_same step).plugin
    cases hbegins with
    | refused e now' =>
      rw [selecting] at now'
      cases now'
    | kept _ idle incomplete starting generation =>
      refine ⟨was, now, hlocked, selecting, starting, rfl, rfl, fun f' m b' hbefore => ?_⟩
      have hgate : gateOf c' = gateOf c := gateOf_eq hplugin generation
      rw [hgate] at hbefore
      obtain rfl := hch.owner _ _ _ _ hbefore _ _ was rfl
      have hspent := (hch.fibers _ c was).spent m b' hbefore
      -- a Fiber that may begin was never begun with this gate, or has completed a round
      cases hs : c.inner.state with
      | Created => exact hspent.begun hs
      | WaitingDependencies => exact incomplete hs (hspent.ended hs)
      | _ =>
        rw [hs] at idle
        contradiction
    | renewed _ starting generation =>
      refine ⟨was, now, hlocked, selecting, starting, rfl, rfl, fun f' m b' hbefore => ?_⟩
      have hlt := (hch.fresh _ _ _ _ hbefore).2
      have hgeneration : (gateOf c').generation = rt.nextGeneration c.plugin := generation
      rw [hgeneration, show (gateOf c').plugin = c.plugin from hplugin] at hlt
      exact absurd hlt (Nat.lt_irrefl _)

/-- The activation that began the gate has succeeded when the selector is switched to it. -/
structure Switching (rt : Runtime) (log note : List ActivationEvent) (rt' : Runtime) (f : FiberId) (n : Nat)
    (g : Gate) (b : Bool) (c c' : FiberCell) : Prop where
  was : rt.fibers f = some c
  now : rt'.fibers f = some c'
  began : .began f n g b ∈ log
  succeeded : ∃ q, c'.activations n = some q ∧ q.succeeded = true
  how : c.activations n = some .checked ∧ publications note g = [.commit f n .Starting true true] ∨
    c.inner.staged = true

theorem step_switching (hch : Chronicled rt log) (h : rt.step l = some rt') {g : Gate}
    (hg : publications (activationNote rt l rt') g ≠ []) :
    ∃ f n b c c', Switching rt log (activationNote rt l rt') rt' f n g b c c' := by
  have hchronicle := step_chronicle hch.topology h
  generalize activationNote rt l rt' = note at hchronicle hg
  cases hchronicle with
  | quiet => exact absurd rfl hg
  | began => exact absurd (publications_began ..) hg
  | committed f n c c' was now before after =>
    obtain ⟨rfl, hnote⟩ := publications_switched hg
    obtain ⟨b, hbegan⟩ := (hch.fibers f c was).working n _ before rfl
    exact ⟨f, n, b, c, c', was, now, hbegan, ⟨_, after, rfl⟩, .inl ⟨before, hnote⟩⟩
  | cut old f c was flag active =>
    obtain ⟨rfl, -⟩ := publications_switched hg
    have htold := hch.fibers f c was
    obtain ⟨n, b, pc, hbegan, hpc, hsucceeded⟩ := htold.active (.inl active)
    obtain ⟨c', now, hcase⟩ := (step_follows hch.topology h).cells f c was
    exact ⟨f, n, b, c, c', was, now, hbegan,
      activation_stays (fun _ _ h => h.succeeded) htold.issued hcase ⟨pc, hpc, hsucceeded⟩, .inr flag⟩

theorem committed_note {a : FiberLabel} (hch : Chronicled rt log) (h : rt.step l = some rt')
    (hc : rt.fibers f = some c) (hc' : rt'.fibers f = some c') (hstep : c.step a = some c')
    (hacts : Acts rt f c l a) {n : Nat} {o : Outcome} {g : GenerationId} (ha : a = .activationCommit n o g)
    (hwas : c.inner.state = .Starting) (hnow : c'.inner.state = .Active) :
    activationNote rt l rt' = [.switched (gateOf c) (.commit f n .Starting true true)] := by
  subst ha
  cases hacts with
  | own answer =>
    obtain ⟨o', g', rfl⟩ := commit_label answer
    obtain ⟨hfree, hnamed, -⟩ := commit_publishes h hc hc' answer hwas hnow
    obtain ⟨hbefore, -, hsealed, -⟩ := step_committed hstep hwas hnow
    have hunseen : rt.visible (gateOf c) = false := by
      rw [visible_gateOf, hfree]
      exact beq_false_of_ne (Nat.ne_of_gt (hch.numbered.fibers f c hc).1).symm
    have hseen : rt'.visible (gateOf c) = true := by
      rw [visible_gateOf, hnamed]
      exact beq_self_eq_true _
    simp [activationNote, publishNote, hasChecked, hc, hunseen, hseen, hwas, hsealed, hbefore]

theorem unparked_acts {a : FiberLabel} (hl : rt.Unparked l) (hc : rt.fibers f = some c) (hacts : Acts rt f c l a) :
    c.Unparked a := by
  cases a with
  | installWait =>
    cases hacts with
    | @own b _ answer =>
      have hkind := answered_kind answer
      obtain rfl : b = .installWait := by cases b <;> simp_all [FiberLabel.kind]
      simpa only [Unparked, unparked, hc, Option.all_some, decide_eq_true_eq] using hl
  | _ => trivial

theorem fresh_acts {n : Nat} {a : Bool} {e : CordisError}
    (hacts : Acts rt f c l (.activationBegin n a (.error e))) :
    False := by
  cases hacts with
  | own answer =>
    obtain ⟨a', x, rfl⟩ := begin_label answer
    cases answer

theorem gate_acts {a : FiberLabel} (hstep : c.step a = some c') (hacts : Acts rt f c l a) :
    gateOf c' = gateOf c ∨ c'.generation = rt.nextGeneration c'.plugin ∧ ∃ n b x, a = .activationBegin n b x := by
  have hplugin := (step_same hstep).plugin
  cases step_gated hstep with
  | kept generation | closed _ _ _ _ generation | superseded _ generation =>
    exact .inl (gateOf_eq hplugin generation)
  | renewed n g label _ _ generation =>
    subst label
    cases hacts with
    | own answer =>
      obtain ⟨-, -, hg⟩ := answered_begin answer
      exact .inr ⟨by rw [generation, hg, hplugin], n, _, _, rfl⟩

theorem gate_working {a : FiberLabel} (hsound : c.Sound) (hstep : c.step a = some c') (hacts : Acts rt f c l a)
    {n : Nat} {pc : ActivationPc} (hpc : c.activations n = some pc) (hworking : pc.working = true) :
    gateOf c' = gateOf c := by
  rcases gate_acts hstep hacts with hgate | ⟨-, m, b, x, rfl⟩
  · exact hgate
  cases x with
  | error e => exact absurd hacts fresh_acts
  | ok g =>
    obtain ⟨hlocked, -⟩ := step_begins hstep
    have hm := hsound.exclusive m _ hlocked rfl
    rw [hsound.exclusive n pc hpc (ActivationPc.held_of_working hworking)] at hm
    cases hm
    rw [hpc] at hlocked
    cases hlocked
    contradiction

theorem began_note {a : FiberLabel} {n : Nat} {b : Bool} {x : Except CordisError GenerationId}
    (hc' : rt'.fibers f = some c') (hacts : Acts rt f c l a) (ha : a = .activationBegin n b x)
    (hselecting : c'.activations n = some .selecting) :
    .began f n (gateOf c') c'.inner.staged ∈ activationNote rt l rt' := by
  subst ha
  cases hacts with
  | own answer =>
    obtain ⟨b', x', rfl⟩ := begin_label answer
    simp [activationNote, beginsNote, hc', hselecting]

theorem told_step (hch : Chronicled rt log) (hl : rt.Unparked l) (h : rt.step l = some rt')
    (hc : rt.fibers f = some c) (hc' : rt'.fibers f = some c')
    (hcase : c' = c ∨ ∃ a, c.step a = some c' ∧ Acts rt f c l a) :
    Told (log ++ activationNote rt l rt') f c' := by
  have htold := hch.fibers f c hc
  have hbeginning : ∀ {n g b}, .began f n g b ∈ activationNote rt l rt' →
      activationNote rt l rt' = [.began f n g b] ∧ Beginning rt log rt' f n g b c c' := by
    intro n g b hbegan
    obtain ⟨hnote, d, d', hb⟩ := step_beginning hch h hbegan
    obtain rfl : d = c := by simpa [hc] using hb.was.symm
    obtain rfl : d' = c' := by simpa [hc'] using hb.now.symm
    exact ⟨hnote, hb⟩
  constructor
  · rcases hcase with rfl | ⟨a, ha, -⟩
    · exact htold.sound
    · exact sound_step htold.sound ha
  · rcases hcase with rfl | ⟨a, ha, -⟩
    · exact htold.seated
    · exact seated_step htold.sound htold.seated ha
  · rcases hcase with rfl | ⟨a, ha, -⟩
    · exact htold.issued
    · exact issued_step htold.issued ha
  · rcases hcase with rfl | ⟨a, ha, hacts⟩
    · exact htold.resting
    · exact resting_step htold.resting (unparked_acts hl hc hacts) ha
  case begun =>
    intro n g b hbegan
    rcases List.mem_append.mp hbegan with hold | hnew
    · obtain ⟨pc, hpc, hearly⟩ := htold.begun n g b hold
      obtain ⟨q, hq, hstill⟩ := activation_stays (P := fun pc => !pc.early)
        (fun _ _ h hp => by simpa using h.begun (by simpa using hp)) htold.issued hcase
        ⟨pc, hpc, by simpa using hearly⟩
      exact ⟨q, hq, by simpa using hstill⟩
    · exact ⟨_, (hbeginning hnew).2.selecting, rfl⟩
  case working =>
    intro n q hq hworking
    rcases hcase with rfl | ⟨a, ha, hacts⟩
    · obtain ⟨b, hb⟩ := htold.working n q hq hworking
      exact ⟨b, List.mem_append_left _ hb⟩
    rcases step_working ha hq hworking with ⟨pc, hpc, hwas⟩ | ⟨-, rfl, b, x, hbegin⟩
    · obtain ⟨b, hb⟩ := htold.working n pc hpc hwas
      rw [gate_working htold.sound ha hacts hpc hwas]
      exact ⟨b, List.mem_append_left _ hb⟩
    · exact ⟨_, List.mem_append_right _ (began_note hc' hacts hbegin hq)⟩
  case spent =>
    intro n b hbegan
    rcases List.mem_append.mp hbegan with hold | hnew
    · rcases hcase with rfl | ⟨a, ha, hacts⟩
      · exact htold.spent n b hold
      rcases gate_acts ha hacts with hgate | ⟨hgeneration, -⟩
      · rw [hgate] at hold
        refine spent_step htold.sound htold.resting (unparked_acts hl hc hacts) (fun m b e heq => ?_)
          (htold.spent n b hold) ha
        exact fresh_acts (heq ▸ hacts)
      · have hlt := (hch.fresh _ _ _ _ hold).2
        rw [show (gateOf c').generation = rt.nextGeneration c'.plugin from hgeneration] at hlt
        exact absurd hlt (Nat.lt_irrefl _)
    · exact .of_not_idle (by rw [(hbeginning hnew).2.starting]; rfl)
  case active =>
    intro hactive
    have hkept : c.inner.state = .Active ∨ c.inner.state = .Reloading → gateOf c' = gateOf c →
        ∃ n b pc, .began f n (gateOf c') b ∈ log ++ activationNote rt l rt' ∧ c'.activations n = some pc ∧
          pc.succeeded = true := by
      intro hwas hgate
      obtain ⟨n, b, pc, hbegan, hpc, hsucceeded⟩ := htold.active hwas
      obtain ⟨q, hq, hstill⟩ := activation_stays (fun _ _ h => h.succeeded) htold.issued hcase ⟨pc, hpc, hsucceeded⟩
      exact ⟨n, b, q, List.mem_append_left _ (hgate ▸ hbegan), hq, hstill⟩
    rcases hcase with rfl | ⟨a, ha, hacts⟩
    · exact hkept hactive rfl
    have hworked : ∀ n pc q, c.activations n = some pc → pc.working = true → c'.activations n = some q →
        q.succeeded = true → ∃ n b pc, .began f n (gateOf c') b ∈ log ++ activationNote rt l rt' ∧
          c'.activations n = some pc ∧ pc.succeeded = true := by
      intro n pc q hpc hworking hq hsucceeded
      obtain ⟨b, hb⟩ := htold.working n pc hpc hworking
      rw [gate_working htold.sound ha hacts hpc hworking]
      exact ⟨n, b, q, List.mem_append_left _ hb, hq, hsucceeded⟩
    have hgate : gateOf c' = gateOf c := by
      rcases gate_acts ha hacts with hgate | ⟨-, n, b, x, rfl⟩
      · exact hgate
      cases x with
      | error e => exact absurd hacts fresh_acts
      | ok g =>
        cases (step_begins ha).2 with
        | refused _ _ inner => exact gateOf_eq (step_same ha).plugin (by unfold FiberCell.generation; rw [inner])
        | kept _ _ _ starting | renewed _ starting => simp [starting] at hactive
    cases step_seat htold.sound.consistent ha with
    | kept _ state =>
      rcases state with hsame | ⟨hne, hne', -⟩
      · exact hkept (hsame ▸ hactive) hgate
      · simp [hne, hne'] at hactive
    | deferred n _ was now => exact hworked n _ _ was rfl now rfl
    | committed n _ _ was now => exact hworked n _ _ was rfl now rfl
    | marked _ _ _ active => exact hkept (.inl active) hgate
    | restored _ was legal =>
      exact hkept (.inr (legal.resolve_right (htold.seated.reloading was))) hgate
    | cutover target g label =>
      subst label
      simp only [FiberCell.step] at ha
      split_ifs at ha with hif
      exact hkept (.inl hif.1) hgate
  case flag =>
    intro n g hbegan
    rcases List.mem_append.mp hbegan with hold | hnew
    · have hflag := htold.flag n g hold
      rcases hcase with rfl | ⟨a, ha, -⟩
      · exact hflag
      · by_contra hnow
        rw [Bool.not_eq_false] at hnow
        rw [barred_staged (step_barred ha) hnow] at hflag
        contradiction
    · exact (hbeginning hnew).2.flag.symm
  case switched =>
    intro n g b hbegan hne
    rw [publications_append] at hne
    have hstays := fun h => activation_stays (n := n) (fun _ _ h => h.succeeded) htold.issued hcase h
    rcases List.mem_append.mp hbegan with hold | hnew
    · by_cases hbefore : publications log g = []
      · rw [hbefore, List.nil_append] at hne
        obtain ⟨f', n', b', d, d', hs⟩ := step_switching hch h hne
        obtain ⟨rfl, rfl, rfl⟩ := hch.once _ _ _ _ _ _ _ hold hs.began
        obtain rfl : d' = c' := by simpa [hc'] using hs.now.symm
        exact hs.succeeded
      · exact hstays (htold.switched n g b hold hbefore)
    · obtain ⟨hnote, hb⟩ := hbeginning hnew
      rw [hnote, publications_began, List.append_nil] at hne
      obtain ⟨f', m, b', hbefore⟩ := hch.began g hne
      exact absurd hbefore (hb.unbegun f' m b')
  case committed =>
    intro n g q hbegan hq hsucceeded
    rw [publications_append]
    rcases List.mem_append.mp hbegan with hold | hnew
    swap
    · have hselecting := (hbeginning hnew).2.selecting
      rw [hq] at hselecting
      cases hselecting
      contradiction
    obtain ⟨pc, hpc, -⟩ := htold.begun n g false hold
    have hflag := htold.flag n g hold
    cases hwas : pc.succeeded with
    | true =>
      rw [htold.committed n g pc hold hpc hwas]
      suffices hnone : publications (activationNote rt l rt') g = [] by rw [hnone, List.append_nil]
      -- the gate is not switched to a second time
      by_contra hne
      obtain ⟨f', n', b', d, d', hs⟩ := step_switching hch h hne
      obtain ⟨rfl, rfl, rfl⟩ := hch.once _ _ _ _ _ _ _ hold hs.began
      obtain rfl : d = c := by simpa [hc] using hs.was.symm
      rcases hs.how with ⟨hcommitting, -⟩ | hstaged
      · rw [hpc] at hcommitting
        cases hcommitting
        contradiction
      · rw [hflag] at hstaged
        contradiction
    | false =>
      rcases hcase with rfl | ⟨a, ha, hacts⟩
      · rw [hpc] at hq
        cases hq
        rw [hwas] at hsucceeded
        contradiction
      have hnone : publications log g = [] := by
        by_contra hne
        obtain ⟨p, hp, hdone⟩ := htold.switched n g false hold hne
        rw [hpc] at hp
        cases hp
        rw [hwas] at hdone
        contradiction
      rcases step_succeeds ha hpc hq hwas hsucceeded with rfl | ⟨o, x, hlabel, rfl, hstarting, hactive⟩
      · rw [htold.seated.deferring n hpc] at hflag
        contradiction
      · obtain ⟨b, hb⟩ := htold.working n _ hpc rfl
        obtain ⟨rfl, -⟩ := hch.single _ _ _ _ _ _ hold hb
        rw [hnone, committed_note hch h hc hc' ha hacts hlabel hstarting hactive]
        simp [publications]

theorem began_cases (hch : Chronicled rt log) (h : rt.step l = some rt') {n : Nat} {g : Gate} {b : Bool}
    (hbegan : .began f n g b ∈ log ++ activationNote rt l rt') :
    .began f n g b ∈ log ∨ activationNote rt l rt' = [.began f n g b] ∧
      ∃ c c', Beginning rt log rt' f n g b c c' := by
  rcases List.mem_append.mp hbegan with hold | hnew
  · exact .inl hold
  · exact .inr (step_beginning hch h hnew)

theorem shown_step (hch : Chronicled rt log) (h : rt.step l = some rt') (p : PluginId)
    (hp : rt'.selectors p ≠ .NONE) :
    publications (log ++ activationNote rt l rt') ⟨p, rt'.selectors p⟩ ≠ [] := by
  rw [publications_append]
  have hkept : rt'.selectors p = rt.selectors p →
      publications log ⟨p, rt'.selectors p⟩ ++
        publications (activationNote rt l rt') ⟨p, rt'.selectors p⟩ ≠ [] := by
    intro hsame
    rw [hsame] at hp ⊢
    exact List.append_ne_nil_of_left_ne_nil (hch.shown p hp) _
  have hnoted : ∀ by_, activationNote rt l rt' = [.switched ⟨p, rt'.selectors p⟩ by_] →
      publications log ⟨p, rt'.selectors p⟩ ++
        publications (activationNote rt l rt') ⟨p, rt'.selectors p⟩ ≠ [] := by
    intro by_ hnote
    refine List.append_ne_nil_of_right_ne_nil _ ?_
    rw [hnote]
    simp [publications]
  rcases step_selectors h with hcleared | ⟨f, n, o, b, rfl⟩ | ⟨old, staged, staging, target, rfl⟩
  · exact hkept ((hcleared p).resolve_right hp)
  · obtain ⟨c, a, c', hc, ha, hstep, heq⟩ := fiberStep_spec h
    have hc' : rt'.fibers f = some c' := by
      rw [heq, (fiberEffect_fibers _ _ hstep).1]
      exact Function.update_self ..
    rcases fiberEffect_selects f (rt.setFiber f c') hstep with hcleared | ⟨m, o', g, rfl, hwas, hnow, hselectors, -⟩
    · rw [← heq] at hcleared
      exact hkept ((hcleared p).resolve_right hp)
    · by_cases hplugin : p = c.plugin
      · subst hplugin
        cases ha
        obtain ⟨-, hnamed, -⟩ := commit_publishes h hc hc' rfl hwas hnow
        refine hnoted (.commit f n .Starting true true) ?_
        rw [hnamed]
        exact committed_note hch h hc hc' hstep (.own rfl) rfl hwas hnow
      · refine hkept ?_
        rw [heq, hselectors]
        unfold switch
        split_ifs
        · exact Function.update_of_ne hplugin ..
        · rfl
  · rcases commitReload_cases hch.topology h with hsame | ⟨oldCell, c, hcut, hnow⟩
    · exact hkept (by rw [hsame.rest])
    have hselectors : rt'.selectors = Function.update rt.selectors c.plugin c.generation := by
      rw [hnow]
      rfl
    by_cases hplugin : p = c.plugin
    · subst hplugin
      have hgate := hcut.gate
      simp only [CapabilityGate.isStaged, Bool.and_eq_true] at hgate
      have hnamed : rt'.selectors c.plugin = c.generation := by
        rw [hselectors]
        exact Function.update_self ..
      have hunseen : rt.visible (gateOf c) = false := by simpa [visible, gateOf] using hgate.2
      have hseen : rt'.visible (gateOf c) = true := by
        rw [visible_gateOf, hnamed]
        exact beq_self_eq_true _
      refine hnoted (.cutover old staged) ?_
      rw [hnamed]
      simp only [activationNote, publishNote, hcut.stagedFiber, hunseen, hseen]
      rfl
    · refine hkept ?_
      rw [hselectors]
      exact Function.update_of_ne hplugin ..

theorem chronicled_step (hch : Chronicled rt log) (hl : rt.Unparked l) (h : rt.step l = some rt') :
    Chronicled rt' (log ++ activationNote rt l rt') := by
  have hnumbered := numbered_step hch.topology hch.numbered h
  have htopology := topology_step hch.topology h
  refine ⟨htopology, hnumbered, fun f c' hc' => ?_, fun f n g b hbegan => ?_, fun f n g b hbegan => ?_,
    fun f n g b hbegan f' c' hc' hgate => ?_, fun f n g b f' n' b' hbegan hbegan' => ?_,
    fun f n g b g' b' hbegan hbegan' => ?_, fun g hne => ?_, shown_step hch h⟩
  · cases hc : rt.fibers f with
    | none =>
      obtain ⟨-, -, p?, p, s, d, g, b, -, rfl⟩ := (step_follows hch.topology h).fresh f c' hc' hc
      refine told_created _ _ _ _ _ _ fun n g b hbegan => ?_
      rcases began_cases hch h hbegan with hold | ⟨-, c, d, hb⟩
      · obtain ⟨c, hc'⟩ := hch.known f n g b hold
        rw [hc] at hc'
        cases hc'
      · have hwas := hb.was
        rw [hc] at hwas
        cases hwas
    | some c =>
      obtain ⟨d, hd, hcase⟩ := (step_follows hch.topology h).cells f c hc
      rw [hc'] at hd
      cases hd
      exact told_step hch hl h hc hc' hcase
  · rcases began_cases hch h hbegan with hold | ⟨-, c, c', hb⟩
    · obtain ⟨c, hc⟩ := hch.known f n g b hold
      obtain ⟨c', hc', -⟩ := (step_follows hch.topology h).cells f c hc
      exact ⟨c', hc'⟩
    · exact ⟨c', hb.now⟩
  · rcases began_cases hch h hbegan with hold | ⟨-, c, c', hb⟩
    · obtain ⟨hpos, hlt⟩ := hch.fresh f n g b hold
      exact ⟨hpos, Nat.lt_of_lt_of_le hlt (step_counts hch.topology h g.plugin)⟩
    · rw [hb.gate]
      exact hnumbered.fibers f c' hb.now
  · rcases began_cases hch h hbegan with hold | ⟨-, c, d, hb⟩
    · cases step_provenance hch.topology h hc' with
      | kept c was _ same => exact hch.owner f n g b hold f' c was (same ▸ hgate)
      | issued _ generation =>
        have hlt := (hch.fresh f n g b hold).2
        rw [← hgate, show (gateOf c').generation = rt.nextGeneration c'.plugin from generation] at hlt
        exact absurd hlt (Nat.lt_irrefl _)
    · exact hnumbered.apart f' f c' d hc' hb.now (hgate.trans hb.gate)
  · rcases began_cases hch h hbegan with hold | ⟨hnote, c, c', hb⟩
    · rcases began_cases hch h hbegan' with hold' | ⟨-, d, d', hb⟩
      · exact hch.once _ _ _ _ _ _ _ hold hold'
      · exact absurd hold (hb.unbegun f n b)
    · rcases began_cases hch h hbegan' with hold' | ⟨hnote', -⟩
      · exact absurd hold' (hb.unbegun f' n' b')
      · rw [hnote] at hnote'
        cases hnote'
        exact ⟨rfl, rfl, rfl⟩
  · -- a call that begins has not begun
    have hfresh : ∀ {g b g' b'}, .began f n g b ∈ log →
        (∃ c c', Beginning rt log rt' f n g' b' c c') → False := by
      rintro g b g' b' hold ⟨c, c', hb⟩
      obtain ⟨pc, hpc, hearly⟩ := (hch.fibers f c hb.was).begun n g b hold
      rw [hb.locked] at hpc
      cases hpc
      contradiction
    rcases began_cases hch h hbegan with hold | ⟨hnote, hb⟩
    · rcases began_cases hch h hbegan' with hold' | ⟨-, hb⟩
      · exact hch.single _ _ _ _ _ _ hold hold'
      · exact (hfresh hold hb).elim
    · rcases began_cases hch h hbegan' with hold' | ⟨hnote', -⟩
      · exact (hfresh hold' hb).elim
      · rw [hnote] at hnote'
        cases hnote'
        exact ⟨rfl, rfl⟩
  · by_cases hbefore : publications log g = []
    · rw [publications_append, hbefore, List.nil_append] at hne
      obtain ⟨f, n, b, c, c', hs⟩ := step_switching hch h hne
      exact ⟨f, n, b, List.mem_append_left _ hs.began⟩
    · obtain ⟨f, n, b, hbegan⟩ := hch.began g hbefore
      exact ⟨f, n, b, List.mem_append_left _ hbegan⟩

theorem chronicled_reach {p : Runtime × List ActivationEvent}
    (h : Reach (recording step activationNote) (fun p => Unparked p.1) (.new, []) p) : Chronicled p.1 p.2 := by
  induction h with
  | refl => exact chronicled_new
  | tail _ hparked hstep ih =>
    obtain ⟨hs, hlog⟩ := recording_eq_some hstep
    rw [hlog]
    exact chronicled_step ih hparked hs

theorem hides_of_invisible {g : Gate} (h : rt.visible g = false) : rt.Hides g where
  invisible := h
  services := by
    rintro s key e he rfl
    obtain ⟨a, -, ha⟩ := List.exists_of_findSome?_eq_some he
    have hvisible := (Option.filter_eq_some_iff.mp ha).2
    rw [h] at hvisible
    contradiction
  handlers := by
    rintro id e - hvisible rfl
    rw [h] at hvisible
    contradiction
  middleware := by
    rintro id e - hvisible rfl
    rw [h] at hvisible
    contradiction

/-- **A failed activation is invisible**, and one that has returned `Ok` for a Fiber that is not staged
switched the selector once. -/
theorem failed_activation_invisible {past : Runtime} {early : List ActivationEvent}
    (hpast : Reach (recording step activationNote) (fun p => Unparked p.1) (.new, []) (past, early))
    (hrun : Reach (recording step activationNote) (fun p => Unparked p.1) (past, early) (rt, log)) :
    FailedHidden past rt log ∧ CommittedOnce rt log := by
  have hch := chronicled_reach (hpast.trans hrun)
  refine ⟨fun f n g b c e hbegan hc hreturned => hides_of_invisible ?_, fun f n g c hbegan hc hreturned =>
    (hch.fibers f c hc).committed n g _ hbegan hreturned rfl⟩
  by_contra hvisible
  have hnamed : past.selectors g.plugin = g.generation := by simpa [visible] using hvisible
  have hpublished : publications early g ≠ [] := by
    have hshown := (chronicled_reach hpast).shown g.plugin
    rw [hnamed] at hshown
    exact hshown (Nat.ne_of_gt (hch.fresh f n g b hbegan).1)
  obtain ⟨late, rfl⟩ := hrun.log_prefix
  -- what names the generation is the success of the activation that began it
  obtain ⟨pc, hpc, hsucceeded⟩ := (hch.fibers f c hc).switched n g b hbegan (by
    rw [publications_append]
    exact List.append_ne_nil_of_left_ne_nil hpublished _)
  rw [hreturned] at hpc
  cases hpc
  contradiction

/-- The start of Fiber 0 panics, and Fiber 1 is activated. -/
theorem failed_activation_invisible_panic :
    ∃ rt log, Reach (recording step activationNote) (fun p => Unparked p.1) (.new, []) (rt, log) ∧
      .began 0 0 ⟨0, 1⟩ false ∈ log ∧ .began 1 0 ⟨1, 1⟩ false ∈ log ∧
      (rt.fibers 0).any (fun c => (c.activations 0).any (·.failing)) = true ∧
      (rt.fibers 1).any (fun c => (c.activations 0).any (·.succeeded)) = true ∧
      FailedHidden rt rt log ∧ CommittedOnce rt log := by
  have hrun : ((runIf (recording step activationNote) (fun p => Unparked p.1) (.new, [])
      (.install 0 none ⟨[], [], .Restart⟩ false :: sections 0 ([.installValidate (.ok ()), .installCheck true,
        .activationLock 0, .activationBegin 0 true (.ok 0), .activationPoll 0,
        .activationReturn 0 (.error (.PluginPanicked "")), .activationUnlock 0, .activationFail 0,
        .activationCleanup 0, .activationDispose 0] ++ quietRound ++ [.activationCleaned 0]) ++
        installed 1 0 none ⟨[], [], .Restart⟩ false [])).any fun p =>
        decide (ActivationEvent.began 0 0 ⟨0, 1⟩ false ∈ p.2 ∧ .began 1 0 ⟨1, 1⟩ false ∈ p.2 ∧
          (p.1.fibers 0).any (fun c => (c.activations 0).any (·.failing)) = true ∧
          (p.1.fibers 1).any (fun c => (c.activations 0).any (·.succeeded)) = true)) = true := by
    decide
  obtain ⟨⟨rt, log⟩, hp, hrun⟩ := (Option.any_eq_true _ _).mp hrun
  obtain ⟨hbegan, hbegan', hfailed, hsucceeded⟩ := of_decide_eq_true hrun
  have hreach := reach_of_runIf hp
  exact ⟨rt, log, hreach, hbegan, hbegan', hfailed, hsucceeded, failed_activation_invisible hreach .refl⟩

/-- Fiber 0 was found without its dependency, and its install is about to park it. A disposal that waits for
dependencies parks it first, and Fiber 1 brings the dependency: of two activation calls the first commits. -/
def activatedTwice : List RuntimeLabel :=
  RuntimeLabel.install 0 none ⟨[7], [], .Restart⟩ false ::
    sections 0 ([.installIndex, .installValidate (.ok ()), .installCheck false, .callDispose true false false] ++
      quietRound) ++
  installed 1 0 none ⟨[], [7], .Restart⟩ false [.provide 1 0 7] ++
  [RuntimeLabel.fiber 0 .callActivate, .fiber 0 .callActivate] ++ activation 0 0 false []

/-- The Fiber is disposed of again, and the install parks it then: the second call begins with the same gate,
and fails because the token has fired. -/
def parkedAgain : List RuntimeLabel :=
  sections 0 ([.callDispose true false false, .installWait, .activationLock 1, .activationBegin 1 true (.ok 0),
    .activationPoll 1, .activationUnlock 1, .activationFail 1, .activationCleanup 1, .activationDispose 1] ++
      quietRound ++
    [.activationCleaned 1])

/-- A Fiber that its install parks while it is being disposed of is activated with the gate that it had. -/
theorem failed_activation_shown :
    ¬ ∀ past early rt log, Reach (recording step activationNote) anyStep (.new, []) (past, early) →
      Reach (recording step activationNote) anyStep (past, early) (rt, log) →
        FailedHidden past rt log ∧ CommittedOnce rt log := by
  intro hall
  have hrun : ((run (recording step activationNote) (.new, []) activatedTwice).any fun p =>
      p.1.visible ⟨0, 2⟩ && (run (recording step activationNote) p parkedAgain).any fun q =>
        decide (ActivationEvent.began 0 1 ⟨0, 2⟩ false ∈ q.2) &&
          (q.1.fibers 0).any fun c => (c.activations 1).any (·.rejected)) = true := by
    decide +kernel
  obtain ⟨⟨past, early⟩, hp, hrun⟩ := (Option.any_eq_true _ _).mp hrun
  obtain ⟨hvisible, hrun⟩ := Bool.and_eq_true_iff.mp hrun
  obtain ⟨⟨rt, log⟩, hq, hrun⟩ := (Option.any_eq_true _ _).mp hrun
  obtain ⟨hbegan, hrun⟩ := Bool.and_eq_true_iff.mp hrun
  obtain ⟨c, hc, hrun⟩ := (Option.any_eq_true _ _).mp hrun
  obtain ⟨pc, hpc, hreturned⟩ := (Option.any_eq_true _ _).mp hrun
  obtain ⟨e, rfl⟩ := ActivationPc.returned_of_rejected hreturned
  have hhides := (hall past early rt log (reach_of_run hp) (reach_of_run hq)).1 0 1 ⟨0, 2⟩ false c e
    (of_decide_eq_true hbegan) hc hpc
  rw [hhides.invisible] at hvisible
  exact Bool.false_ne_true hvisible

end Cordis.Runtime
