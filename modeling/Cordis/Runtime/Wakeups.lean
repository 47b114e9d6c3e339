import Cordis.Core.Error
import Cordis.Library.Machine
import Mathlib.Logic.Function.Basic

/-!
# Scheduled activations

`schedule_activation` keeps at most one `DependencyReconcile` worker for a Fiber: the entry of the Fiber in
`pending_activations` says that it has one, and the flag in the entry that it is to activate once more. A step is
one critical section of one thread, or the begin or the end of `activate`. The admission guard is held from the
entry to the spawn, and workers are cancelled by `shutdown_until` only. `clock` counts the steps, which dates calls
and activations.
-/

namespace Cordis

/-- Where a worker stands, and before it the call that is to spawn it. -/
inductive WakeupPc
  /-- The entry is made; `workers.spawn` is next. -/
  | spawning
  /-- At the head of the loop; `activate` is next. -/
  | looping
  | activating
  /-- `activate` has returned; the lock on `pending_activations` is next. -/
  | activated
  | ended
  | cancelled
  deriving DecidableEq

structure Wakeup where
  fiber : FiberId
  pc : WakeupPc
  deriving DecidableEq

/-- The thread has not come to its end. -/
def Wakeup.live (w : Wakeup) : Prop := w.pc ≠ .ended ∧ w.pc ≠ .cancelled

/-- The thread begins an activation before it looks at the entry. -/
def Wakeup.due (w : Wakeup) : Prop := w.pc = .spawning ∨ w.pc = .looping

structure Wakeups where
  /-- `AdmissionGate`: still `RUNNING`. -/
  admission : Bool
  pending : FiberId → Option Bool
  wakeups : Nat → Option Wakeup
  nextWakeup : Nat
  /-- The calls that were admitted, and when they made or marked the entry. -/
  requests : List (FiberId × Nat)
  /-- The activations that were begun, and when. -/
  activations : List (FiberId × Nat)
  clock : Nat

inductive WakeupLabel
  | schedule (f : FiberId)
  | spawn (n : Nat)
  | activate (n : Nat)
  | activated (n : Nat)
  | relock (n : Nat)
  | beginShutdown
  | cancel (n : Nat)

namespace Wakeups

variable (s : Wakeups)

def new : Wakeups where
  admission := true
  pending := fun _ => none
  wakeups := fun _ => none
  nextWakeup := 0
  requests := []
  activations := []
  clock := 0

def setWakeup (n : Nat) (w : Wakeup) : Wakeups :=
  { s with wakeups := Function.update s.wakeups n (some w) }

def setPending (f : FiberId) (entry : Option Bool) : Wakeups :=
  { s with pending := Function.update s.pending f entry }

/-- A section of thread `n`, which stands at `w`. -/
def stepWakeup (n : Nat) (w : Wakeup) : WakeupLabel → Option Wakeups
  | .spawn _ => if w.pc = .spawning then some (s.setWakeup n { w with pc := .looping }) else none
  | .activate _ =>
    if w.pc = .looping then
      some { s.setWakeup n { w with pc := .activating } with
        activations := s.activations ++ [(w.fiber, s.clock)] }
    else none
  | .activated _ => if w.pc = .activating then some (s.setWakeup n { w with pc := .activated }) else none
  | .relock _ =>
    if w.pc = .activated then
      if s.pending w.fiber = some true then
        some ((s.setPending w.fiber (some false)).setWakeup n { w with pc := .looping })
      else some ((s.setPending w.fiber none).setWakeup n { w with pc := .ended })
    else none
  | .cancel _ =>
    -- `shutdown_until` runs after `begin_shutdown`, and its tokens are seen where the future waits
    if s.admission = false ∧ (w.pc = .looping ∨ w.pc = .activating) then
      some (s.setWakeup n { w with pc := .cancelled })
    else none
  | _ => none

/-- One section, before the clock ticks. -/
def move : WakeupLabel → Option Wakeups
  | .schedule f =>
    if s.admission then
      match s.pending f with
      | some _ => some { s.setPending f (some true) with requests := s.requests ++ [(f, s.clock)] }
      | none =>
        some { (s.setPending f (some false)).setWakeup s.nextWakeup ⟨f, .spawning⟩ with
          nextWakeup := s.nextWakeup + 1
          requests := s.requests ++ [(f, s.clock)] }
    else some s
  | .beginShutdown =>
    -- `begin_shutdown` waits for the guards
    if ∀ n < s.nextWakeup, (s.wakeups n).all (·.pc ≠ .spawning) = true then some { s with admission := false }
    else none
  | l@(.spawn n) | l@(.activate n) | l@(.activated n) | l@(.relock n) | l@(.cancel n) =>
    (s.wakeups n).bind fun w => s.stepWakeup n w l

def step (l : WakeupLabel) : Option Wakeups :=
  (s.move l).map fun t => { t with clock := s.clock + 1 }

/-- An activation of the Fiber began after the call. -/
def Answered (r : FiberId × Nat) : Prop := ∃ began, (r.1, began) ∈ s.activations ∧ r.2 < began

/-- No worker of the Fiber has been cancelled. -/
def Spared (f : FiberId) : Prop := ∀ n w, s.wakeups n = some w → w.fiber = f → w.pc ≠ .cancelled

/-- A thread is there that begins one more activation of the Fiber. -/
def Owed (f : FiberId) : Prop :=
  ∃ n w, s.wakeups n = some w ∧ w.fiber = f ∧ w.live ∧ (w.due ∨ s.pending f = some true)

/-! ## What a step can do -/

variable {s} {t : Wakeups} {l : WakeupLabel}

inductive Moved (s : Wakeups) : Wakeups → Prop
  | marked (f : FiberId) (d : Bool) (admitted : s.admission = true) (entry : s.pending f = some d) :
      Moved s { s.setPending f (some true) with requests := s.requests ++ [(f, s.clock)] }
  | entered (f : FiberId) (admitted : s.admission = true) (free : s.pending f = none) :
      Moved s { (s.setPending f (some false)).setWakeup s.nextWakeup ⟨f, .spawning⟩ with
        nextWakeup := s.nextWakeup + 1
        requests := s.requests ++ [(f, s.clock)] }
  | refused : Moved s s
  | closed : Moved s { s with admission := false }
  | spawned (n : Nat) (w : Wakeup) (was : s.wakeups n = some w) (pc : w.pc = .spawning) :
      Moved s (s.setWakeup n { w with pc := .looping })
  | began (n : Nat) (w : Wakeup) (was : s.wakeups n = some w) (pc : w.pc = .looping) :
      Moved s { s.setWakeup n { w with pc := .activating } with
        activations := s.activations ++ [(w.fiber, s.clock)] }
  | returned (n : Nat) (w : Wakeup) (was : s.wakeups n = some w) (pc : w.pc = .activating) :
      Moved s (s.setWakeup n { w with pc := .activated })
  | again (n : Nat) (w : Wakeup) (was : s.wakeups n = some w) (pc : w.pc = .activated)
      (dirty : s.pending w.fiber = some true) :
      Moved s ((s.setPending w.fiber (some false)).setWakeup n { w with pc := .looping })
  | left (n : Nat) (w : Wakeup) (was : s.wakeups n = some w) (pc : w.pc = .activated)
      (clean : s.pending w.fiber ≠ some true) :
      Moved s ((s.setPending w.fiber none).setWakeup n { w with pc := .ended })
  | cancelled (n : Nat) (w : Wakeup) (was : s.wakeups n = some w) (shut : s.admission = false)
      (pc : w.pc = .looping ∨ w.pc = .activating) :
      Moved s (s.setWakeup n { w with pc := .cancelled })

theorem moved_of_move (h : s.move l = some t) : Moved s t := by
  cases l <;> simp only [move] at h
  case schedule f =>
    split_ifs at h with hopen
    · split at h <;> cases h
      · rename_i d hd
        exact .marked f d hopen hd
      · rename_i hfree
        exact .entered f hopen hfree
    · cases h
      exact .refused
  case beginShutdown =>
    split_ifs at h
    cases h
    exact .closed
  all_goals
    obtain ⟨w, hw, h⟩ := Option.bind_eq_some_iff.mp h
    simp only [stepWakeup] at h
  case spawn n =>
    split_ifs at h with hpc
    cases h
    exact .spawned _ w hw hpc
  case activate n =>
    split_ifs at h with hpc
    cases h
    exact .began _ w hw hpc
  case activated n =>
    split_ifs at h with hpc
    cases h
    exact .returned _ w hw hpc
  case relock n =>
    split_ifs at h with hpc hdirty <;> cases h
    · exact .again _ w hw hpc hdirty
    · exact .left _ w hw hpc hdirty
  case cancel n =>
    split_ifs at h with hcancel
    cases h
    exact .cancelled _ w hw hcancel.1 hcancel.2

/-! ## One thread for an entry -/

/-- The entries and the threads fit together. -/
structure Manned (s : Wakeups) : Prop where
  fresh : ∀ n, s.nextWakeup ≤ n → s.wakeups n = none
  single : ∀ n m w v, s.wakeups n = some w → s.wakeups m = some v → w.live → v.live → w.fiber = v.fiber → n = m
  entry : ∀ n w, s.wakeups n = some w → w.live → s.pending w.fiber ≠ none
  manned : ∀ f, s.Spared f → s.pending f ≠ none → ∃ n w, s.wakeups n = some w ∧ w.fiber = f ∧ w.live
  spared : s.admission = true → ∀ f, s.Spared f

theorem manned_new : Manned new where
  fresh := fun _ _ => rfl
  single := nofun
  entry := nofun
  manned := fun _ _ h => absurd rfl h
  spared := fun _ _ => nofun

theorem spared_before {n : Nat} {w v : Wakeup} (hw : s.wakeups n = some w) (hlive : w.live)
    (hwakeups : t.wakeups = Function.update s.wakeups n (some v)) {f : FiberId} (h : t.Spared f) : s.Spared f := by
  intro m u hu hf
  by_cases hm : m = n
  · subst hm
    obtain rfl := Option.some.inj (hw.symm.trans hu)
    exact hlive.2
  · exact h m u (by rw [hwakeups, Function.update_of_ne hm, hu]) hf

theorem Manned.thread (hs : s.Manned) {n : Nat} {w : Wakeup} (v : Wakeup) (hw : s.wakeups n = some w)
    (hlive : w.live)
    (hfiber : v.fiber = w.fiber) (hadmission : t.admission = s.admission)
    (hother : ∀ f, f ≠ w.fiber → t.pending f = s.pending f) (hown : v.live → t.pending w.fiber ≠ none)
    (hgone : v.pc ≠ .cancelled → ¬ v.live → t.pending w.fiber = none)
    (hshut : v.pc = .cancelled → s.admission = false) (hnext : t.nextWakeup = s.nextWakeup)
    (hwakeups : t.wakeups = Function.update s.wakeups n (some v)) : t.Manned := by
  have hat : t.wakeups n = some v := by rw [hwakeups, Function.update_self]
  have helse : ∀ m, m ≠ n → t.wakeups m = s.wakeups m := fun m hm => by rw [hwakeups, Function.update_of_ne hm]
  have hbelow : n < s.nextWakeup := by
    by_contra hge
    rw [hs.fresh n (Nat.le_of_not_lt hge)] at hw
    cases hw
  have hapart : ∀ m u, m ≠ n → s.wakeups m = some u → u.live → u.fiber ≠ w.fiber :=
    fun m u hm hu hulive heq => hm (hs.single m n u w hu hw hulive hlive heq)
  refine ⟨fun m hm => ?_, fun m k u x hu hx hulive hxlive hsame => ?_, fun m u hu hulive => ?_,
    fun f hspared hf => ?_, fun hopen f m u hu huf => ?_⟩
  · rw [hnext] at hm
    rw [helse m (by omega)]
    exact hs.fresh m hm
  · by_cases hm : m = n <;> by_cases hk : k = n
    · rw [hm, hk]
    · rw [hm, hat] at hu
      cases hu
      rw [helse k hk] at hx
      exact absurd (hsame.symm.trans hfiber) (hapart k x hk hx hxlive)
    · rw [hk, hat] at hx
      cases hx
      rw [helse m hm] at hu
      exact absurd (hsame.trans hfiber) (hapart m u hm hu hulive)
    · rw [helse m hm] at hu
      rw [helse k hk] at hx
      exact hs.single m k u x hu hx hulive hxlive hsame
  · by_cases hm : m = n
    · rw [hm, hat] at hu
      cases hu
      rw [hfiber]
      exact hown hulive
    · rw [helse m hm] at hu
      rw [hother u.fiber (hapart m u hm hu hulive)]
      exact hs.entry m u hu hulive
  · by_cases hf' : f = w.fiber
    · subst hf'
      refine ⟨n, v, hat, hfiber, ?_⟩
      by_contra hdead
      exact hf (hgone (hspared n v hat hfiber) hdead)
    · rw [hother f hf'] at hf
      obtain ⟨m, u, hu, hufiber, hulive⟩ := hs.manned f (spared_before hw hlive hwakeups hspared) hf
      have hm : m ≠ n := by
        rintro rfl
        obtain rfl := Option.some.inj (hw.symm.trans hu)
        exact hf' hufiber.symm
      exact ⟨m, u, (helse m hm).trans hu, hufiber, hulive⟩
  · by_cases hm : m = n
    · rw [hm, hat] at hu
      cases hu
      intro hcancelled
      rw [hadmission, hshut hcancelled] at hopen
      cases hopen
    · exact hs.spared (hadmission ▸ hopen) f m u ((helse m hm).symm.trans hu) huf

theorem manned_moved (hs : s.Manned) (h : Moved s t) : t.Manned := by
  have hlive : ∀ {w : Wakeup} {pc : WakeupPc}, w.pc = pc → pc ≠ .ended → pc ≠ .cancelled → w.live := by
    rintro w _ rfl hended hcancelled
    exact ⟨hended, hcancelled⟩
  cases h with
  | refused => exact hs
  | closed => exact ⟨hs.fresh, hs.single, hs.entry, hs.manned, nofun⟩
  | marked f d admitted entry =>
    have hsame : ∀ g, Function.update s.pending f (some true) g = none ↔ s.pending g = none := by
      intro g
      by_cases hg : g = f
      · simp [hg, entry]
      · rw [Function.update_of_ne hg]
    refine ⟨hs.fresh, hs.single, fun n w hw hwlive => ?_, fun g hspared hg => ?_, hs.spared⟩
    · exact fun hnone => hs.entry n w hw hwlive ((hsame w.fiber).mp hnone)
    · exact hs.manned g hspared fun hnone => hg ((hsame g).mpr hnone)
  | entered f admitted free =>
    have helse : ∀ m, m ≠ s.nextWakeup →
        Function.update s.wakeups s.nextWakeup (some ⟨f, .spawning⟩) m = s.wakeups m :=
      fun m hm => Function.update_of_ne hm ..
    have hapart : ∀ m u, s.wakeups m = some u → u.live → u.fiber ≠ f := by
      rintro m u hu hulive rfl
      exact hs.entry m u hu hulive free
    refine ⟨fun m hm => ?_, fun m k u x hu hx hulive hxlive hsame => ?_, fun m u hu hulive => ?_,
      fun g hspared hg => ?_, fun hopen g m u hu huf => ?_⟩
    · have hm : s.nextWakeup + 1 ≤ m := hm
      exact (helse m (by omega)).trans (hs.fresh m (by omega))
    · simp only [setWakeup, setPending] at hu hx
      by_cases hm : m = s.nextWakeup <;> by_cases hk : k = s.nextWakeup
      · rw [hm, hk]
      · rw [hm, Function.update_self] at hu
        cases hu
        rw [helse k hk] at hx
        exact absurd hsame.symm (hapart k x hx hxlive)
      · rw [hk, Function.update_self] at hx
        cases hx
        rw [helse m hm] at hu
        exact absurd hsame (hapart m u hu hulive)
      · rw [helse m hm] at hu
        rw [helse k hk] at hx
        exact hs.single m k u x hu hx hulive hxlive hsame
    · simp only [setWakeup, setPending] at hu ⊢
      by_cases hm : m = s.nextWakeup
      · rw [hm, Function.update_self] at hu
        cases hu
        rw [Function.update_self]
        nofun
      · rw [helse m hm] at hu
        rw [Function.update_of_ne (hapart m u hu hulive)]
        exact hs.entry m u hu hulive
    · simp only [setWakeup, setPending] at hg ⊢
      by_cases hgf : g = f
      · exact ⟨s.nextWakeup, ⟨f, .spawning⟩, Function.update_self .., hgf.symm, nofun, nofun⟩
      · rw [Function.update_of_ne hgf] at hg
        obtain ⟨m, u, hu, hfiber, hulive⟩ := hs.manned g (hs.spared admitted g) hg
        have hm : m ≠ s.nextWakeup := by
          rintro rfl
          rw [hs.fresh _ (Nat.le_refl _)] at hu
          cases hu
        exact ⟨m, u, (helse m hm).trans hu, hfiber, hulive⟩
    · simp only [setWakeup, setPending] at hu
      by_cases hm : m = s.nextWakeup
      · rw [hm, Function.update_self] at hu
        cases hu
        nofun
      · exact hs.spared admitted g m u ((helse m hm).symm.trans hu) huf
  | spawned n w was pc =>
    have hwlive := hlive pc nofun nofun
    exact hs.thread { w with pc := .looping } was hwlive rfl rfl (fun _ _ => rfl) (fun _ => hs.entry n w was hwlive)
      (fun _ hdead => absurd ⟨nofun, nofun⟩ hdead) nofun rfl rfl
  | began n w was pc =>
    have hwlive := hlive pc nofun nofun
    exact hs.thread { w with pc := .activating } was hwlive rfl rfl (fun _ _ => rfl)
      (fun _ => hs.entry n w was hwlive)
      (fun _ hdead => absurd ⟨nofun, nofun⟩ hdead) nofun rfl rfl
  | returned n w was pc =>
    have hwlive := hlive pc nofun nofun
    exact hs.thread { w with pc := .activated } was hwlive rfl rfl (fun _ _ => rfl)
      (fun _ => hs.entry n w was hwlive)
      (fun _ hdead => absurd ⟨nofun, nofun⟩ hdead) nofun rfl rfl
  | again n w was pc dirty =>
    refine hs.thread { w with pc := .looping } was (hlive pc nofun nofun) rfl rfl
      (fun f hf => Function.update_of_ne hf ..) (fun _ => ?_)
      (fun _ hdead => absurd ⟨nofun, nofun⟩ hdead) nofun rfl rfl
    simp [setWakeup, setPending]
  | left n w was pc clean =>
    exact hs.thread { w with pc := .ended } was (hlive pc nofun nofun) rfl rfl
      (fun f hf => Function.update_of_ne hf ..)
      (fun hended => absurd rfl hended.1) (fun _ _ => Function.update_self ..) nofun rfl rfl
  | cancelled n w was shut pc =>
    have hwlive : w.live := pc.elim (fun h => hlive h nofun nofun) fun h => hlive h nofun nofun
    exact hs.thread { w with pc := .cancelled } was hwlive rfl rfl (fun _ _ => rfl)
      (fun hcancelled => absurd rfl hcancelled.2) (fun hspared => absurd rfl hspared) (fun _ => shut) rfl rfl

/-! ## No call is lost -/

/-- Every call has been followed by an activation, or is going to be, unless a worker of its Fiber was cancelled. -/
def Heard (s : Wakeups) : Prop :=
  ∀ r ∈ s.requests, r.2 < s.clock ∧ (s.Spared r.1 → s.Answered r ∨ s.Owed r.1)

theorem Manned.owed {f : FiberId} (hs : s.Manned) {n : Nat} {w : Wakeup} (v : Wakeup)
    (hw : s.wakeups n = some w) (hlive : w.live)
    (hfiber : v.fiber = w.fiber) (hother : ∀ f, f ≠ w.fiber → t.pending f = s.pending f)
    (hwakeups : t.wakeups = Function.update s.wakeups n (some v)) (howed : s.Owed f)
    (hown : f = w.fiber → w.due ∨ s.pending f = some true →
      v.live ∧ (v.due ∨ t.pending f = some true)) : t.Owed f := by
  obtain ⟨m, u, hu, rfl, hulive, hdue⟩ := howed
  by_cases hm : m = n
  · subst hm
    obtain rfl := Option.some.inj (hw.symm.trans hu)
    obtain ⟨hvlive, hvdue⟩ := hown rfl hdue
    exact ⟨m, v, by rw [hwakeups, Function.update_self], hfiber, hvlive, hvdue⟩
  · have hne : u.fiber ≠ w.fiber := fun heq => hm (hs.single m n u w hu hw hulive hlive heq)
    refine ⟨m, u, ?_, rfl, hulive, ?_⟩
    · rw [hwakeups, Function.update_of_ne hm]
      exact hu
    · rw [hother u.fiber hne]
      exact hdue

theorem heard_moved (hs : s.Manned) (hh : s.Heard) (h : Moved s t) :
    ∀ r ∈ t.requests, r.2 ≤ s.clock ∧ (t.Spared r.1 → t.Answered r ∨ t.Owed r.1) := by
  -- a step other than the begin of an activation answers nothing
  have hkept : t.activations = s.activations → (∀ f, t.Spared f → s.Spared f) →
      (∀ f, t.Spared f → s.Owed f → t.Owed f) →
      ∀ r ∈ s.requests, r.2 ≤ s.clock ∧ (t.Spared r.1 → t.Answered r ∨ t.Owed r.1) := by
    intro hactivations hbefore howed r hr
    obtain ⟨hpast, hstate⟩ := hh r hr
    refine ⟨Nat.le_of_lt hpast, fun hspared => (hstate (hbefore _ hspared)).imp ?_ (howed r.1 hspared)⟩
    rintro ⟨began, hbegan, hlater⟩
    exact ⟨began, hactivations ▸ hbegan, hlater⟩
  have hlive : ∀ {w : Wakeup} {pc : WakeupPc}, w.pc = pc → pc ≠ .ended → pc ≠ .cancelled → w.live := by
    rintro w _ rfl hended hcancelled
    exact ⟨hended, hcancelled⟩
  cases h with
  | refused | closed => exact hkept rfl (fun _ h => h) fun _ _ howed => howed
  | marked f d admitted entry =>
    have howed : ∀ g, s.Owed g →
        Owed { s.setPending f (some true) with requests := s.requests ++ [(f, s.clock)] } g := by
      rintro g ⟨n, w, hw, rfl, hwlive, hdue⟩
      refine ⟨n, w, hw, rfl, hwlive, hdue.imp_right fun hdirty => ?_⟩
      by_cases hf : w.fiber = f
      · exact hf ▸ Function.update_self ..
      · exact (Function.update_of_ne hf ..).trans hdirty
    intro r hr
    rcases List.mem_append.mp hr with hold | hnew
    · exact hkept rfl (fun _ h => h) (fun g _ => howed g) r hold
    · obtain rfl := List.mem_singleton.mp hnew
      obtain ⟨n, w, hw, hfiber, hwlive⟩ := hs.manned f (hs.spared admitted f) (by simp [entry])
      exact ⟨Nat.le_refl _, fun _ => .inr ⟨n, w, hw, hfiber, hwlive, .inr (Function.update_self ..)⟩⟩
  | entered f admitted free =>
    intro r hr
    rcases List.mem_append.mp hr with hold | hnew
    · refine hkept rfl (fun g _ => hs.spared admitted g) ?_ r hold
      rintro g - ⟨n, w, hw, rfl, hwlive, hdue⟩
      have hn : n ≠ s.nextWakeup := by
        rintro rfl
        rw [hs.fresh _ (Nat.le_refl _)] at hw
        cases hw
      refine ⟨n, w, (Function.update_of_ne hn ..).trans hw, rfl, hwlive, hdue.imp_right fun hdirty => ?_⟩
      have hf : w.fiber ≠ f := by
        rintro rfl
        exact hs.entry n w hw hwlive free
      exact (Function.update_of_ne hf ..).trans hdirty
    · obtain rfl := List.mem_singleton.mp hnew
      exact ⟨Nat.le_refl _, fun _ => .inr ⟨s.nextWakeup, ⟨f, .spawning⟩, Function.update_self .., rfl,
        ⟨nofun, nofun⟩, .inl (.inl rfl)⟩⟩
  | spawned n w was pc =>
    have hwlive := hlive pc nofun nofun
    refine hkept rfl (fun _ => spared_before was hwlive rfl) fun g _ howed => ?_
    exact hs.owed { w with pc := .looping } was hwlive rfl (fun _ _ => rfl) rfl howed
      fun _ _ => ⟨⟨nofun, nofun⟩, .inl (.inr rfl)⟩
  | began n w was pc =>
    have hwlive := hlive pc nofun nofun
    -- this activation answers every call for the Fiber
    intro r hr
    obtain ⟨hpast, hstate⟩ := hh r hr
    refine ⟨Nat.le_of_lt hpast, fun hspared => ?_⟩
    by_cases hf : r.1 = w.fiber
    · exact .inl ⟨s.clock, List.mem_append_right _ (by simp [hf]), hpast⟩
    refine (hstate (spared_before was hwlive rfl hspared)).imp ?_ fun howed => ?_
    · rintro ⟨began, hbegan, hlater⟩
      exact ⟨began, List.mem_append_left _ hbegan, hlater⟩
    · exact hs.owed { w with pc := .activating } was hwlive rfl (fun _ _ => rfl) rfl howed
        fun heq => absurd heq hf
  | returned n w was pc =>
    have hwlive := hlive pc nofun nofun
    refine hkept rfl (fun _ => spared_before was hwlive rfl) fun g _ howed => ?_
    refine hs.owed { w with pc := .activated } was hwlive rfl (fun _ _ => rfl) rfl howed ?_
    rintro rfl hdue
    refine ⟨⟨nofun, nofun⟩, .inr (hdue.resolve_left ?_)⟩
    simp [Wakeup.due, pc]
  | again n w was pc dirty =>
    have hwlive := hlive pc nofun nofun
    refine hkept rfl (fun _ => spared_before was hwlive rfl) fun g _ howed => ?_
    exact hs.owed { w with pc := .looping } was hwlive rfl
      (fun f hf => Function.update_of_ne hf ..) rfl howed fun _ _ => ⟨⟨nofun, nofun⟩, .inl (.inr rfl)⟩
  | left n w was pc clean =>
    have hwlive := hlive pc nofun nofun
    refine hkept rfl (fun _ => spared_before was hwlive rfl) fun g _ howed => ?_
    refine hs.owed { w with pc := .ended } was hwlive rfl
      (fun f hf => Function.update_of_ne hf ..) rfl howed ?_
    rintro rfl hdue
    refine absurd (hdue.resolve_left ?_) clean
    simp [Wakeup.due, pc]
  | cancelled n w was shut pc =>
    have hwlive : w.live := pc.elim (fun h => hlive h nofun nofun) fun h => hlive h nofun nofun
    refine hkept rfl (fun _ => spared_before was hwlive rfl) fun g hspared howed => ?_
    refine hs.owed { w with pc := .cancelled } was hwlive rfl (fun _ _ => rfl) rfl howed ?_
    rintro rfl
    exact absurd rfl (hspared n { w with pc := .cancelled } (Function.update_self ..) rfl)

theorem heard_step (hs : s.Manned) (hh : s.Heard) (h : s.step l = some t) : t.Manned ∧ t.Heard := by
  obtain ⟨u, hu, rfl⟩ := Option.map_eq_some_iff.mp h
  have hmoved := moved_of_move hu
  refine ⟨?_, fun r hr => ?_⟩
  · obtain ⟨hfresh, hsingle, hentry, hmanned, hspared⟩ := manned_moved hs hmoved
    exact ⟨hfresh, hsingle, hentry, hmanned, hspared⟩
  · obtain ⟨hpast, hstate⟩ := heard_moved hs hh hmoved r hr
    exact ⟨Nat.lt_succ_of_le hpast, hstate⟩

/-- **No call of `schedule_activation` is lost**, in any interleaving of calls, workers and the begin of the
shutdown: a Fiber never has two workers; no worker is cancelled before the shutdown begins; and as long as no worker
of a Fiber has been cancelled, every admitted call for it has been followed by an activation, or a worker is there
that begins one, and when it has no live worker no entry is left behind. -/
theorem no_wakeup_lost (h : Machine.Reach step Machine.anyStep new s) :
    (∀ n m w v, s.wakeups n = some w → s.wakeups m = some v → w.live → v.live → w.fiber = v.fiber → n = m) ∧
    (s.admission = true → ∀ f, s.Spared f) ∧
    ∀ f, s.Spared f → (∀ r ∈ s.requests, r.1 = f → s.Answered r ∨ s.Owed f) ∧
      ((∀ n w, s.wakeups n = some w → w.fiber = f → ¬ w.live) →
        s.pending f = none ∧ ∀ r ∈ s.requests, r.1 = f → s.Answered r) := by
  have hinv : s.Manned ∧ s.Heard := by
    refine h.invariant (I := fun s => s.Manned ∧ s.Heard) ⟨manned_new, fun _ => nofun⟩ ?_
    exact fun _ _ _ hs _ hstep => heard_step hs.1 hs.2 hstep
  obtain ⟨hs, hh⟩ := hinv
  refine ⟨hs.single, hs.spared, fun f hspared => ?_⟩
  have hheard : ∀ r ∈ s.requests, r.1 = f → s.Answered r ∨ s.Owed f := by
    rintro r hr rfl
    exact (hh r hr).2 hspared
  refine ⟨hheard, fun hidle => ⟨?_, fun r hr hf => ?_⟩⟩
  · by_contra hentry
    obtain ⟨n, w, hw, hfiber, hlive⟩ := hs.manned f hspared hentry
    exact hidle n w hw hfiber hlive
  · refine (hheard r hr hf).resolve_right ?_
    rintro ⟨n, w, hw, hfiber, hlive, -⟩
    exact hidle n w hw hfiber hlive

/-- Fiber 3 is scheduled, once more while its activation is under way, and then its worker ends. -/
def scheduledTwice : List WakeupLabel :=
  [.schedule 3, .spawn 0, .activate 0, .schedule 3, .activated 0, .relock 0, .activate 0, .activated 0, .relock 0]

theorem no_wakeup_lost_twice :
    ∃ s, Machine.Reach step Machine.anyStep new s ∧ s.activations = [(3, 2), (3, 6)] ∧ s.Spared 3 ∧
      ∀ r ∈ [(3, 0), (3, 3)], s.Answered r ∨ s.Owed 3 := by
  have hrun : ((Machine.run step new scheduledTwice).any fun s => s.admission ∧ s.requests = [(3, 0), (3, 3)] ∧
      s.activations = [(3, 2), (3, 6)]) = true := by
    decide
  obtain ⟨s, hs, hstate⟩ := (Option.any_eq_true _ _).mp hrun
  obtain ⟨hopen, hrequests, hactivations⟩ := of_decide_eq_true hstate
  have hreach := Machine.reach_of_run hs
  have hspared := (no_wakeup_lost hreach).2.1 hopen 3
  refine ⟨s, hreach, hactivations, hspared, fun r hr => ?_⟩
  have hfiber : r.1 = 3 := by
    rcases List.mem_cons.mp hr with rfl | hr
    · rfl
    · rw [List.mem_singleton.mp hr]
  exact ((no_wakeup_lost hreach).2.2 3 hspared).1 r (hrequests ▸ hr) hfiber

end Wakeups

end Cordis
