import Cordis.Library.Machine
import Cordis.Library.Threads
import Cordis.Runtime.Plugins
import Mathlib.Algebra.Order.BigOperators.Group.List
import Mathlib.Algebra.Order.Group.Nat

/-!
# Plugin slots count the Fibers of the arena

Between attaching and inserting, and between removing and detaching, a thread accounts for a Fiber that a
slot counts and the arena does not hold. With these added, every slot counts exactly; so a slot that is
reclaimed has no Fiber, and no detach finds a count of zero.
-/

namespace Cordis.PluginRegistry

open Machine Threads Plugins

/-! ## What a thread accounts for -/

/-- How many Fibers of a plugin the thread has taken out of the arena and not detached, or attached and
not inserted. -/
def CollectPc.owes (p : PluginId) : CollectPc → Nat
  | remove _ removed | detach removed | reclaim _ removed => removed.countP (·.plugin = p)
  | _ => 0

def InstallPc.owes (p : PluginId) : InstallPc → Nat
  | collect _ pc => pc.owes p
  | insert q _ | detach q _ => (decide (q = p)).toNat
  | _ => 0

def Thread.owes (p : PluginId) : Thread → Nat
  | install pc => pc.owes p
  | collect pc => pc.owes p
  | restart .. => 0

/-- The Fibers of the snapshot that the thread still has to go through. -/
def CollectPc.known : CollectPc → List FiberEntry
  | read todo disposed => todo ++ disposed
  | remove todo _ => todo
  | _ => []

def Thread.known : Thread → List FiberEntry
  | install (.collect _ pc) => pc.known
  | collect pc => pc.known
  | _ => []

/-- The plugin that the thread detaches a Fiber from next. -/
def CollectPc.detaching : CollectPc → Option PluginId
  | detach (e :: _) => some e.plugin
  | _ => none

def Thread.detaching : Thread → Option PluginId
  | install (.collect _ pc) | collect pc => pc.detaching
  | install (.detach p _) => some p
  | _ => none

namespace Plugins

variable (s : Plugins)

def count (p : PluginId) : Nat := (s.slots p).elim 0 (·.fiberCount)

/-- The Fibers of a plugin in the arena, and those that threads account for. -/
def total (p : PluginId) : Nat := s.fibersOf p + (s.threads.map (Thread.owes p)).sum

/-- No thread is between an attach and its insertion, or between a removal and its detach. -/
def Settled (p : PluginId) : Prop := ∀ th ∈ s.threads, th.owes p = 0

end Plugins

/-! ## The invariant -/

/-- What holds of the slots and the arena. -/
structure Tables (s : Plugins) : Prop where
  fresh : ∀ p, s.nextPlugin ≤ p → s.slots p = none ∧ s.generations p = []
  increasing : ∀ p, (s.generations p).Pairwise (· < ·)
  issued : ∀ p slot, s.slots p = some slot → ∀ g ∈ s.generations p, g < slot.nextGeneration
  nodup : (s.fibers.map (·.id)).Nodup
  bound : ∀ e ∈ s.fibers, e.id < s.nextFiber

structure Exact (s : Plugins) : Prop where
  tables : Tables s
  counted : ∀ p, s.count p = s.total p
  known : ∀ th ∈ s.threads, ∀ e ∈ th.known,
    e.id < s.nextFiber ∧ ∀ e' ∈ s.fibers, e'.id = e.id → e' = e

section

variable {s u : Plugins} {p q : PluginId} {before after : PluginId → Nat}

/-- A step of a thread takes it from accounting for `before` to accounting for `after`. -/
structure Turn (s u : Plugins) (before after : PluginId → Nat) : Prop where
  tables : Tables u
  threads : u.threads = s.threads
  balance : ∀ p, u.count p + s.fibersOf p + before p = s.count p + u.fibersOf p + after p
  next : s.nextFiber ≤ u.nextFiber
  old : ∀ e ∈ u.fibers, e ∈ s.fibers ∨ s.nextFiber ≤ e.id

theorem Turn.refl (h : Tables s) (heq : ∀ p, before p = after p) : Turn s s before after :=
  ⟨h, rfl, fun p => by rw [heq p], Nat.le_refl _, fun _ he => .inl he⟩

theorem Exact.turn (h : Exact s) {n : Nat} {th th' : Thread} (hn : s.threads[n]? = some th)
    (ht : Turn s u (th.owes ·) (th'.owes ·))
    (hknown : ∀ e ∈ th'.known, e ∈ th.known ∨ e ∈ s.fibers) :
    Exact { u with threads := s.threads.set n th' } := by
  have hcopy : ∀ e, (e.id < s.nextFiber ∧ ∀ e' ∈ s.fibers, e'.id = e.id → e' = e) →
      e.id < u.nextFiber ∧ ∀ e' ∈ u.fibers, e'.id = e.id → e' = e := by
    rintro e ⟨hlt, hsame⟩
    refine ⟨Nat.lt_of_lt_of_le hlt ht.next, fun e' he' hid => ?_⟩
    rcases ht.old e' he' with hold | hnew
    · exact hsame e' hold hid
    · rw [hid] at hnew
      exact absurd hlt (Nat.not_lt.mpr hnew)
  refine ⟨?_, fun p => ?_, fun o ho e he => ?_⟩
  · obtain ⟨hfresh, hincreasing, hissued, hnodup, hbound⟩ := ht.tables
    exact ⟨hfresh, hincreasing, hissued, hnodup, hbound⟩
  · have hsum := sum_set (f := Thread.owes p) (b := th') hn
    have hcounted := h.counted p
    have hbalance := ht.balance p
    simp only [Plugins.total] at hcounted
    show u.count p = u.fibersOf p + ((s.threads.set n th').map (Thread.owes p)).sum
    omega
  · rcases (mem_set hn).mp ho with rfl | ⟨m, -, hm⟩
    · rcases hknown e he with hold | harena
      · exact hcopy e (h.known th (List.mem_of_getElem? hn) e hold)
      · refine hcopy e ⟨h.tables.bound e harena, fun e' he' hid => ?_⟩
        exact List.inj_on_of_nodup_map h.tables.nodup he' harena hid
    · exact hcopy e (h.known o (List.mem_of_getElem? hm) e he)

/-! ## The slots -/

theorem count_setSlot {slot : Option PluginSlot} :
    (s.setSlot q slot).count p = if p = q then slot.elim 0 (·.fiberCount) else s.count p := by
  unfold Plugins.count Plugins.setSlot
  by_cases hp : p = q
  · subst hp
    simp
  · simp [hp]

theorem Tables.setSlot (h : Tables s) {slot : PluginSlot} (hslot : s.slots q = some slot)
    {slot' : Option PluginSlot}
    (hnext : ∀ new, slot' = some new → slot.nextGeneration ≤ new.nextGeneration) :
    Tables (s.setSlot q slot') := by
  have hlive : ¬ s.nextPlugin ≤ q := by
    intro hle
    rw [(h.fresh q hle).1] at hslot
    contradiction
  refine ⟨fun p hle => ?_, h.increasing, fun p new heq g hg => ?_, h.nodup, h.bound⟩
  · have hne : p ≠ q := by
      rintro rfl
      exact hlive hle
    obtain ⟨hnone, hgens⟩ := h.fresh p hle
    exact ⟨(Function.update_of_ne hne _ _).trans hnone, hgens⟩
  · by_cases hp : p = q
    · subst hp
      have hnew : slot' = some new := by simpa [Plugins.setSlot] using heq
      exact Nat.lt_of_lt_of_le (h.issued p slot hslot g hg) (hnext new hnew)
    · have hsame : s.slots p = some new := by simpa [Plugins.setSlot, hp] using heq
      exact h.issued p new hsame g hg

theorem Tables.create (h : Tables s) (heq : ∀ p, before p = after p) :
    Turn s s.create.1 before after := by
  obtain ⟨hnone, hgens⟩ := h.fresh s.nextPlugin (Nat.le_refl _)
  refine ⟨⟨fun p hle => ?_, h.increasing, fun p slot hslot g hg => ?_, h.nodup, h.bound⟩, rfl,
    fun p => ?_, Nat.le_refl _, fun _ he => .inl he⟩
  · have hle' : s.nextPlugin + 1 ≤ p := hle
    obtain ⟨hnone', hgens'⟩ := h.fresh p (Nat.le_of_succ_le hle')
    exact ⟨(Function.update_of_ne (Nat.ne_of_gt hle') _ _).trans hnone', hgens'⟩
  · by_cases hp : p = s.nextPlugin
    · subst hp
      have hnil : g ∈ s.generations s.nextPlugin := hg
      rw [hgens] at hnil
      cases hnil
    · have hsame : s.slots p = some slot := by
        simpa [Plugins.create, Plugins.setSlot, hp] using hslot
      exact h.issued p slot hsame g hg
  · have hcount : s.create.1.count p = s.count p := by
      show (s.setSlot s.nextPlugin (some {})).count p = s.count p
      rw [count_setSlot]
      split_ifs with hp
      · subst hp
        simp [Plugins.count, hnone]
      · rfl
    rw [hcount, heq p]
    rfl

theorem allocate_spec {g : GenerationId} (hs : s.allocateGeneration p = .ok (u, g)) :
    ∃ slot, s.slots p = some slot ∧ g = slot.nextGeneration ∧
      u = { s.setSlot p (some { slot with nextGeneration := g + 1 }) with
        handedOut := s.handedOut ++ [(p, g)] } := by
  unfold Plugins.allocateGeneration at hs
  split at hs
  · cases hs
  · rename_i slot hslot
    split_ifs at hs
    cases hs
    exact ⟨slot, hslot, rfl, rfl⟩

theorem generations_append {g : GenerationId} (hu : u.handedOut = s.handedOut ++ [(q, g)]) :
    u.generations p = s.generations p ++ if q = p then [g] else [] := by
  rw [Plugins.generations, Plugins.generations, hu, List.filter_append, List.map_append]
  by_cases hp : q = p <;> simp [hp]

theorem Tables.allocate (h : Tables s) {g : GenerationId} (hs : s.allocateGeneration q = .ok (u, g))
    (heq : ∀ p, before p = after p) : Turn s u before after := by
  obtain ⟨slot, hslot, hg, hu⟩ := allocate_spec hs
  have hset : Tables (s.setSlot q (some { slot with nextGeneration := g + 1 })) :=
      h.setSlot hslot fun new hnew => by
    cases hnew
    rw [hg]
    exact Nat.le_succ _
  have hgens : ∀ p, u.generations p = s.generations p ++ if q = p then [g] else [] :=
    fun p => generations_append (by rw [hu])
  have hslots : u.slots = (s.setSlot q (some { slot with nextGeneration := g + 1 })).slots := by rw [hu]
  refine ⟨⟨fun p hle => ?_, fun p => ?_, fun p new hnew x hx => ?_, ?_, ?_⟩, ?_, fun p => ?_, ?_, ?_⟩
  · have hle' : s.nextPlugin ≤ p := by rwa [hu] at hle
    have hne : q ≠ p := by
      rintro rfl
      rw [(h.fresh q hle').1] at hslot
      contradiction
    obtain ⟨hnone, hnil⟩ := hset.fresh p hle'
    rw [hslots, hgens p, if_neg hne, List.append_nil]
    exact ⟨hnone, hnil⟩
  · rw [hgens p]
    split_ifs with hp
    · subst hp
      refine List.pairwise_append.mpr ⟨h.increasing q, List.pairwise_singleton _ _, fun x hx y hy => ?_⟩
      rw [List.mem_singleton.mp hy, hg]
      exact h.issued q slot hslot x hx
    · rw [List.append_nil]
      exact h.increasing p
  · rw [hslots] at hnew
    rw [hgens p] at hx
    rcases List.mem_append.mp hx with hold | hlast
    · exact hset.issued p new hnew x hold
    · split_ifs at hlast with hp
      · subst hp
        have heq : some { slot with nextGeneration := g + 1 } = some new := by
          simpa [Plugins.setSlot] using hnew
        cases heq
        rw [List.mem_singleton.mp hlast]
        exact Nat.lt_succ_self g
      · cases hlast
  · rw [hu]
    exact h.nodup
  · rw [hu]
    exact h.bound
  · rw [hu]
    rfl
  · have hcount : u.count p = s.count p := by
      rw [hu]
      show (s.setSlot q (some { slot with nextGeneration := g + 1 })).count p = s.count p
      rw [count_setSlot]
      split_ifs with hp
      · subst hp
        simp [Plugins.count, hslot]
      · rfl
    have hfibers : u.fibersOf p = s.fibersOf p := by
      rw [hu]
      rfl
    rw [hcount, hfibers, heq p]
  · rw [hu]
    exact Nat.le_refl _
  · rw [hu]
    exact fun _ he => .inl he

theorem Tables.recount (h : Tables s) {slot new : PluginSlot} (hslot : s.slots q = some slot)
    (hnext : new.nextGeneration = slot.nextGeneration)
    (hcount : ∀ p, new.fiberCount * (decide (q = p)).toNat + before p =
      slot.fiberCount * (decide (q = p)).toNat + after p) :
    Turn s (s.setSlot q (some new)) before after := by
  refine ⟨h.setSlot hslot fun _ heq => ?_, rfl, fun p => ?_, Nat.le_refl _, fun _ he => .inl he⟩
  · cases heq
    exact Nat.le_of_eq hnext.symm
  · have hp := hcount p
    show (s.setSlot q (some new)).count p + s.fibersOf p + before p = s.count p + s.fibersOf p + after p
    rw [count_setSlot]
    split_ifs with heq
    · subst heq
      simp only [decide_true, Bool.toNat_true, Nat.mul_one] at hp
      simp only [Plugins.count, hslot, Option.elim_some]
      omega
    · have hne : ¬ q = p := fun hqp => heq hqp.symm
      simp only [hne, decide_false, Bool.toNat_false, Nat.mul_zero] at hp
      omega

theorem Tables.attach (h : Tables s) (hs : s.attachFiber q = .ok u)
    (hafter : ∀ p, after p = before p + (decide (q = p)).toNat) : Turn s u before after := by
  unfold Plugins.attachFiber at hs
  split at hs
  · cases hs
  · rename_i slot hslot
    split_ifs at hs
    cases hs
    refine h.recount hslot rfl fun p => ?_
    rw [hafter p, Nat.add_one_mul]
    omega

theorem detach_ok {slot : PluginSlot} (hslot : s.slots q = some slot) (hpos : 0 < slot.fiberCount) :
    s.detachFiber q = .ok (s.setSlot q (some { slot with fiberCount := slot.fiberCount - 1 })) := by
  unfold Plugins.detachFiber
  rw [hslot]
  exact if_pos hpos

theorem detach_of_count (hpos : 0 < s.count q) : ∃ slot, s.slots q = some slot ∧ 0 < slot.fiberCount := by
  unfold Plugins.count at hpos
  cases hslot : s.slots q with
  | none =>
    rw [hslot] at hpos
    exact absurd hpos (Nat.lt_irrefl 0)
  | some slot =>
    rw [hslot] at hpos
    exact ⟨slot, rfl, hpos⟩

theorem Tables.detach (h : Tables s) (hpos : 0 < s.count q)
    (hbefore : ∀ p, before p = after p + (decide (q = p)).toNat) : Turn s (s.detached q) before after := by
  obtain ⟨slot, hslot, hpos⟩ := detach_of_count hpos
  rw [Plugins.detached, detach_ok hslot hpos]
  refine h.recount hslot rfl fun p => ?_
  rw [hbefore p]
  by_cases hp : q = p
  · simp only [hp, decide_true, Bool.toNat_true]
    omega
  · simp [hp]

theorem Tables.reclaim (h : Tables s) (heq : ∀ p, before p = after p) :
    Turn s (s.reclaimIfDead q).1 before after := by
  unfold Plugins.reclaimIfDead
  split
  · rename_i slot hslot
    split_ifs with hdead
    · refine ⟨h.setSlot hslot nofun, rfl, fun p => ?_, Nat.le_refl _, fun _ he => .inl he⟩
      show (s.setSlot q none).count p + s.fibersOf p + before p = s.count p + s.fibersOf p + after p
      rw [count_setSlot, heq p]
      split_ifs with hp
      · subst hp
        simp [Plugins.count, hslot, hdead.1]
      · rfl
    · exact .refl h heq
  · exact .refl h heq

/-! ## The arena -/

theorem Tables.insert (h : Tables s) (hbefore : ∀ p, before p = after p + (decide (q = p)).toNat) :
    Turn s (s.insertFiber q).1 before after := by
  have hfibers : (s.insertFiber q).1.fibers = s.fibers ++ [⟨s.nextFiber, q⟩] := rfl
  refine ⟨⟨h.fresh, h.increasing, h.issued, ?_, fun e he => ?_⟩, rfl, fun p => ?_, Nat.le_succ _,
    fun e he => ?_⟩
  · rw [hfibers, List.map_append]
    refine List.nodup_append.mpr ⟨h.nodup, List.nodup_singleton _, fun x hx y hy => ?_⟩
    obtain ⟨e, he, rfl⟩ := List.mem_map.mp hx
    rw [List.mem_singleton.mp hy]
    exact Nat.ne_of_lt (h.bound e he)
  · rcases List.mem_append.mp (hfibers ▸ he) with he | he
    · exact Nat.lt_succ_of_lt (h.bound e he)
    · rw [List.mem_singleton.mp he]
      exact Nat.lt_succ_self _
  · have hcount : (s.insertFiber q).1.fibersOf p = s.fibersOf p + (decide (q = p)).toNat := by
      rw [Plugins.fibersOf, hfibers, List.countP_append, List.countP_singleton]
      by_cases hp : q = p <;> simp [hp, Plugins.fibersOf]
    rw [hcount, hbefore p]
    show s.count p + s.fibersOf p + _ = s.count p + _ + _
    omega
  · rcases List.mem_append.mp (hfibers ▸ he) with he | he
    · exact .inl he
    · rw [List.mem_singleton.mp he]
      exact .inr (Nat.le_refl _)

theorem Exact.spawn (h : Exact s) {th : Thread} (howes : ∀ p, th.owes p = 0) (hknown : th.known = []) :
    Exact (s.spawn th) := by
  obtain ⟨hfresh, hincreasing, hissued, hnodup, hbound⟩ := h.tables
  refine ⟨⟨hfresh, hincreasing, hissued, hnodup, hbound⟩, fun p => ?_, fun o ho e he => ?_⟩
  · have hsum : ((s.threads ++ [th]).map (Thread.owes p)).sum = (s.threads.map (Thread.owes p)).sum := by
      simp [howes p]
    show s.count p = s.fibersOf p + ((s.threads ++ [th]).map (Thread.owes p)).sum
    rw [hsum]
    exact h.counted p
  · rcases List.mem_append.mp ho with ho | ho
    · exact h.known o ho e he
    · rw [List.mem_singleton.mp ho, hknown] at he
      cases he

theorem Exact.switch (h : Exact s) (q : PluginId) (expected next : GenerationId) :
    Exact (s.switchSelector q expected next) := by
  unfold Plugins.switchSelector
  split
  · rename_i slot hslot
    split_ifs
    · refine ⟨h.tables.setSlot hslot fun new hnew => ?_, fun p => ?_, h.known⟩
      · cases hnew
        exact Nat.le_refl _
      · rw [count_setSlot]
        split_ifs with hp
        · subst hp
          have hcount : s.count p = slot.fiberCount := by rw [Plugins.count, hslot, Option.elim_some]
          exact hcount.symm.trans (h.counted p)
        · exact h.counted p
    · exact h
  · exact h

end

end Cordis.PluginRegistry
