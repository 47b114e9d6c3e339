import Cordis.Library.Machine
import Cordis.Library.Threads
import Cordis.Dispatch.Registration

/-!
# Snapshots list the arena

Whoever holds the writer of the slot that is mapped for an event is alone to change the arena for that
event, the snapshot of the slot, and the mapping. So between two updates the snapshot is the arena
restricted to the event, a slot is mapped just as long as there is a handler, and a slot that is not
mapped any more is empty for good.
-/

namespace Cordis.EventBus

open Registry Machine Threads

variable {κ : Type} [DecidableEq κ]

/-- The slot whose writer the thread has locked. -/
def Thread.holds : Thread κ → Option (κ × Nat)
  | register k _ (.check a) | register k _ (.drop a) | register k _ (.insert a)
  | register k _ (.load a _) | register k _ (.store a ..) | register k _ (.unlock a _)
  | remove _ (.take k a) | remove _ (.load k a _) | remove _ (.store k a ..)
  | remove _ (.check k a _) | remove _ (.unmap k a) | remove _ (.unlock k a _) => some (k, a)
  | _ => none

/-- The id that a call of `register_gated` got from the arena. -/
def RegisterPc.id? : RegisterPc → Option Nat
  | load _ id | store _ id _ | unlock _ id | done id => some id
  | _ => none

namespace Registry

variable (s : Registry κ)

def Present (id : Nat) (k : κ) : Prop := ∃ e ∈ s.handlers, e.id = id ∧ e.event = k

def Absent (id : Nat) : Prop := id < s.nextHandler ∧ ∀ e ∈ s.handlers, e.id ≠ id

end Registry

/-! ## What a thread relies on -/

/-- What holds of a call of `register_gated`. -/
def RegisterPc.Sane (s : Registry κ) (k : κ) (gate : Nat) : RegisterPc → Prop
  | slot => True
  | lock a => a < s.made k
  | check a | drop a => a < s.made k ∧ (s.slots k = some a → s.entries k = s.snapshot k a)
  | insert a => s.slots k = some a ∧ s.entries k = s.snapshot k a
  | load a id => s.slots k = some a ∧ s.entries k = s.snapshot k a ++ [⟨id, gate⟩]
  | store a id next =>
    s.slots k = some a ∧ s.entries k = next ∧ next = s.snapshot k a ++ [⟨id, gate⟩]
  | unlock a _ => s.slots k = some a ∧ s.entries k = s.snapshot k a
  | done _ => True

/-- What holds of a call of `remove`. -/
def RemovePc.Sane (s : Registry κ) (id : Nat) : RemovePc κ → Prop
  | find => True
  | slot k => s.Present id k
  | lock k a => s.slots k = some a ∧ s.Present id k
  | take k a => s.slots k = some a ∧ s.Present id k ∧ s.entries k = s.snapshot k a
  | load k a unregistered => s.slots k = some a ∧
      s.entries k = (s.snapshot k a).filter (·.id ≠ id) ∧ (unregistered = true ↔ s.entries k = []) ∧
        s.Absent id
  | store k a unregistered next => s.slots k = some a ∧ s.entries k = next ∧
      next = (s.snapshot k a).filter (·.id ≠ id) ∧ (unregistered = true ↔ s.entries k = []) ∧
        s.Absent id
  | check k a unregistered => s.slots k = some a ∧ s.entries k = s.snapshot k a ∧
      (unregistered = true ↔ s.entries k = []) ∧ s.Absent id
  | unmap k a => s.slots k = some a ∧ s.entries k = s.snapshot k a ∧ s.entries k = [] ∧ s.Absent id
  | unlock k a result => a < s.made k ∧ (s.slots k = some a → s.entries k = s.snapshot k a) ∧
      (result = true → s.Absent id)
  | done result => result = true → s.Absent id

def Thread.Sane (s : Registry κ) : Thread κ → Prop
  | register k gate pc => pc.Sane s k gate
  | remove id pc => pc.Sane s id
  | dispatch .. => True

/-- The thread will insert a handler into this slot, or has taken the last one out and unmaps it. -/
def Thread.Owes (k : κ) (a : Nat) : Thread κ → Prop
  | register k' _ (.lock a') | register k' _ (.check a') | register k' _ (.insert a') => k' = k ∧ a' = a
  | remove _ (.load k' a' unregistered) | remove _ (.store k' a' unregistered _)
  | remove _ (.check k' a' unregistered) => k' = k ∧ a' = a ∧ unregistered = true
  | remove _ (.unmap k' a') => k' = k ∧ a' = a
  | _ => False

/-- What the steps of another thread leave of the world of thread `o`. -/
structure Keeps (s u : Registry κ) (o : Thread κ) : Prop where
  made : ∀ k, s.made k ≤ u.made k
  held : ∀ k a, o.holds = some (k, a) → (a < s.made k → (u.slots k = some a ↔ s.slots k = some a)) ∧
    (s.slots k = some a → u.slots k = some a ∧ u.entries k = s.entries k ∧
      u.snapshot k a = s.snapshot k a)
  present : ∀ id pc k, o = .remove id pc → s.Present id k →
    u.Present id k ∧ (s.slots k ≠ none → u.slots k = s.slots k)
  absent : ∀ id, s.Absent id → u.Absent id

theorem Thread.Sane.keeps {s u : Registry κ} {o : Thread κ} (h : o.Sane s) (hk : Keeps s u o) :
    o.Sane u := by
  cases o with
  | register k gate pc =>
    cases pc with
    | slot | done => trivial
    | lock a => exact Nat.lt_of_lt_of_le h (hk.made k)
    | check a | drop a =>
      obtain ⟨hlt, hlisted⟩ := h
      obtain ⟨hiff, hsame⟩ := hk.held k a rfl
      refine ⟨Nat.lt_of_lt_of_le hlt (hk.made k), fun hslot => ?_⟩
      have hwas := (hiff hlt).mp hslot
      obtain ⟨-, hentries, hsnapshot⟩ := hsame hwas
      rw [hentries, hsnapshot]
      exact hlisted hwas
    | insert a | load a id | unlock a id =>
      obtain ⟨hslot, hlisted⟩ := h
      obtain ⟨hslot', hentries, hsnapshot⟩ := (hk.held k a rfl).2 hslot
      exact ⟨hslot', by rw [hentries, hsnapshot]; exact hlisted⟩
    | store a id next =>
      obtain ⟨hslot, hlisted, hnext⟩ := h
      obtain ⟨hslot', hentries, hsnapshot⟩ := (hk.held k a rfl).2 hslot
      exact ⟨hslot', by rw [hentries]; exact hlisted, by rw [hsnapshot]; exact hnext⟩
  | remove id pc =>
    cases pc with
    | find => trivial
    | slot k => exact (hk.present id _ k rfl h).1
    | lock k a =>
      obtain ⟨hslot, hpresent⟩ := h
      obtain ⟨hpresent', hkept⟩ := hk.present id _ k rfl hpresent
      exact ⟨(hkept (by rw [hslot]; nofun)).trans hslot, hpresent'⟩
    | take k a =>
      obtain ⟨hslot, hpresent, hlisted⟩ := h
      obtain ⟨hslot', hentries, hsnapshot⟩ := (hk.held k a rfl).2 hslot
      exact ⟨hslot', (hk.present id _ k rfl hpresent).1, by rw [hentries, hsnapshot]; exact hlisted⟩
    | load k a unregistered | check k a unregistered =>
      obtain ⟨hslot, hlisted, hlast, habsent⟩ := h
      obtain ⟨hslot', hentries, hsnapshot⟩ := (hk.held k a rfl).2 hslot
      exact ⟨hslot', by rw [hentries, hsnapshot]; exact hlisted, by rw [hentries]; exact hlast,
        hk.absent id habsent⟩
    | store k a unregistered next =>
      obtain ⟨hslot, hlisted, hnext, hlast, habsent⟩ := h
      obtain ⟨hslot', hentries, hsnapshot⟩ := (hk.held k a rfl).2 hslot
      exact ⟨hslot', by rw [hentries]; exact hlisted, by rw [hsnapshot]; exact hnext,
        by rw [hentries]; exact hlast, hk.absent id habsent⟩
    | unmap k a =>
      obtain ⟨hslot, hlisted, hempty, habsent⟩ := h
      obtain ⟨hslot', hentries, hsnapshot⟩ := (hk.held k a rfl).2 hslot
      exact ⟨hslot', by rw [hentries, hsnapshot]; exact hlisted, by rw [hentries]; exact hempty,
        hk.absent id habsent⟩
    | unlock k a result =>
      obtain ⟨hlt, hlisted, habsent⟩ := h
      obtain ⟨hiff, hsame⟩ := hk.held k a rfl
      refine ⟨Nat.lt_of_lt_of_le hlt (hk.made k), fun hslot => ?_, fun hr => hk.absent id (habsent hr)⟩
      have hwas := (hiff hlt).mp hslot
      obtain ⟨-, hentries, hsnapshot⟩ := hsame hwas
      rw [hentries, hsnapshot]
      exact hlisted hwas
    | done result => exact fun hr => hk.absent id (h hr)
  | dispatch => trivial

/-! ## The invariant -/

structure Sound (s : Registry κ) : Prop where
  sane : ∀ (n : Nat) (th : Thread κ), s.threads[n]? = some th → th.Sane s
  writer : ∀ k a, s.writer k a = true ↔ ∃ th ∈ s.threads, th.holds = some (k, a)
  exclusive : ∀ (n m : Nat) (th th' : Thread κ) k a, s.threads[n]? = some th →
    s.threads[m]? = some th' → th.holds = some (k, a) → th'.holds = some (k, a) → n = m
  made : ∀ k a, s.slots k = some a → a < s.made k
  listed : ∀ k a, s.slots k = some a → s.writer k a = false → s.entries k = s.snapshot k a
  stale : ∀ k a, s.slots k ≠ some a → s.snapshot k a = []
  mapped : ∀ k, s.entries k ≠ [] → s.slots k ≠ none
  owed : ∀ k a, s.slots k = some a → s.entries k ≠ [] ∨ ∃ th ∈ s.threads, th.Owes k a
  ordered : (s.handlers.map (·.id)).Pairwise (· < ·)
  bound : ∀ e ∈ s.handlers, e.id < s.nextHandler
  removers : ∀ (n m : Nat) id (pc pc' : RemovePc κ), s.threads[n]? = some (.remove id pc) →
    s.threads[m]? = some (.remove id pc') → n = m
  registered : ∀ k gate (pc : RegisterPc) id, Thread.register k gate pc ∈ s.threads →
    pc.id? = some id → id < s.nextHandler ∧ (s.Present id k ∨ s.Removing id)
  registrars : ∀ (n m : Nat) k k' gate gate' (pc pc' : RegisterPc) id,
    s.threads[n]? = some (.register k gate pc) → s.threads[m]? = some (.register k' gate' pc') →
      pc.id? = some id → pc'.id? = some id → n = m

section Step

variable {s u : Registry κ} {n : Nat} {th th' : Thread κ}

/-- A step keeps the call that the thread is. -/
inductive Thread.Same : Thread κ → Thread κ → Prop
  | register {k : κ} {gate : Nat} {pc pc' : RegisterPc} : Same (.register k gate pc) (.register k gate pc')
  | remove {id : Nat} {pc pc' : RemovePc κ} : Same (.remove id pc) (.remove id pc')
  | dispatch {k : κ} {pc pc' : LoadPc} : Same (.dispatch k pc) (.dispatch k pc')

theorem stepThread_same (h : stepThread s th = some (u, th')) : th.Same th' := by
  cases th with
  | register | remove | dispatch =>
    obtain ⟨p, -, heq⟩ := Option.map_eq_some_iff.mp h
    cases heq
    constructor

/-- The thread changes from one place to another, and with it the world. -/
structure Advance (s u : Registry κ) (n : Nat) (th th' : Thread κ) : Prop where
  was : s.threads[n]? = some th
  now : u.threads = s.threads.set n th'
  same : th.Same th'
  keeps : ∀ (m : Nat) (o : Thread κ), m ≠ n → s.threads[m]? = some o → Keeps s u o
  self : th'.Sane u
  writer : ∀ k a, u.writer k a = true ↔
    th'.holds = some (k, a) ∨ th.holds ≠ some (k, a) ∧ s.writer k a = true
  acquired : ∀ k a, th'.holds = some (k, a) → th.holds = some (k, a) ∨ s.writer k a = false
  next : s.nextHandler ≤ u.nextHandler
  present : ∀ id k, s.Present id k → u.Present id k ∨ ∃ pc, th = .remove id pc
  issued : ∀ k gate pc id, th' = .register k gate pc → pc.id? = some id →
    (∃ pc₀, th = .register k gate pc₀ ∧ pc₀.id? = some id) ∨
      id = s.nextHandler ∧ id < u.nextHandler ∧ u.Present id k

/-- What the tables look like after a step; the rest of the invariant follows from the threads. -/
theorem Sound.advance (h : Sound s) (ha : Advance s u n th th')
    (hmade : ∀ k a, u.slots k = some a → a < u.made k)
    (hlisted : ∀ k a, u.slots k = some a → u.writer k a = false → u.entries k = u.snapshot k a)
    (hstale : ∀ k a, u.slots k ≠ some a → u.snapshot k a = [])
    (hmapped : ∀ k, u.entries k ≠ [] → u.slots k ≠ none)
    (howed : ∀ k a, u.slots k = some a → u.entries k ≠ [] ∨ th'.Owes k a ∨
      ∃ (m : Nat) (o : Thread κ), m ≠ n ∧ s.threads[m]? = some o ∧ o.Owes k a)
    (hordered : (u.handlers.map (·.id)).Pairwise (· < ·))
    (hbound : ∀ e ∈ u.handlers, e.id < u.nextHandler) : Sound u := by
  have hn := ha.was
  have hget : ∀ {m : Nat} {p : Thread κ}, u.threads[m]? = some p ↔
      m = n ∧ p = th' ∨ m ≠ n ∧ s.threads[m]? = some p := by
    intro m p
    rw [ha.now]
    exact get_set hn
  have hmem : ∀ {p : Thread κ}, p ∈ u.threads ↔ p = th' ∨ ∃ m, m ≠ n ∧ s.threads[m]? = some p := by
    intro p
    rw [ha.now]
    exact mem_set hn
  -- a call has the same kind, event and id before the step
  have hremove : ∀ {id pc}, th' = Thread.remove id pc → ∃ pc₀, th = .remove id pc₀ := by
    rintro id pc rfl
    cases ha.same
    exact ⟨_, rfl⟩
  have hremoving : ∀ id, s.Removing id → u.Removing id := by
    rintro id ⟨pc, hpc⟩
    obtain ⟨m, hm⟩ := List.mem_iff_getElem?.mp hpc
    by_cases hmn : m = n
    · subst hmn
      rw [hn] at hm
      cases hm
      have hsame := ha.same
      cases hsame
      exact ⟨_, hmem.mpr (.inl rfl)⟩
    · exact ⟨pc, hmem.mpr (.inr ⟨m, hmn, hm⟩)⟩
  have hissued : ∀ {m : Nat} {k gate} {pc : RegisterPc} {id},
      u.threads[m]? = some (Thread.register k gate pc) → pc.id? = some id →
        (∃ k' gate' pc₀, s.threads[m]? = some (Thread.register k' gate' pc₀) ∧ pc₀.id? = some id) ∨
          m = n ∧ id = s.nextHandler := by
    intro m k gate pc id hm hid
    rcases hget.mp hm with ⟨rfl, heq⟩ | ⟨-, hold⟩
    · rcases ha.issued k gate pc id heq.symm hid with ⟨pc₀, rfl, hid₀⟩ | ⟨hnew, -⟩
      · exact .inl ⟨k, gate, pc₀, hn, hid₀⟩
      · exact .inr ⟨rfl, hnew⟩
    · exact .inl ⟨k, gate, pc, hold, hid⟩
  refine ⟨fun m o hm => ?_, fun k a => ?_, fun m m' o o' k a hm hm' hho hho' => ?_, hmade, hlisted, hstale,
    hmapped, fun k a hslot => ?_, hordered, hbound, fun m m' id pc pc' hm hm' => ?_,
    fun k gate pc id hpc hid => ?_, fun m m' k k' gate gate' pc pc' id hm hm' hid hid' => ?_⟩
  · rcases hget.mp hm with ⟨-, rfl⟩ | ⟨hmn, hold⟩
    · exact ha.self
    · exact (h.sane m o hold).keeps (ha.keeps m o hmn hold)
  · rw [ha.writer k a]
    constructor
    · rintro (hholds | ⟨hnot, hlocked⟩)
      · exact ⟨th', hmem.mpr (.inl rfl), hholds⟩
      · obtain ⟨o, ho, hholds⟩ := (h.writer k a).mp hlocked
        obtain ⟨m, hm⟩ := List.mem_iff_getElem?.mp ho
        refine ⟨o, hmem.mpr (.inr ⟨m, ?_, hm⟩), hholds⟩
        rintro rfl
        rw [hn] at hm
        cases hm
        exact hnot hholds
    · rintro ⟨o, ho, hholds⟩
      rcases hmem.mp ho with rfl | ⟨m, hmn, hm⟩
      · exact .inl hholds
      · refine .inr ⟨fun hself => hmn (h.exclusive m n o th k a hm hn hholds hself), ?_⟩
        exact (h.writer k a).mpr ⟨o, List.mem_of_getElem? hm, hholds⟩
  · -- a writer that the thread has just locked was free
    have hnew : ∀ {m : Nat} {o : Thread κ}, m ≠ n → s.threads[m]? = some o → o.holds = some (k, a) →
        th'.holds = some (k, a) → False := by
      intro m o hmn hm hholds hself
      rcases ha.acquired k a hself with hwas | hfree
      · exact hmn (h.exclusive m n o th k a hm hn hholds hwas)
      · rw [(h.writer k a).mpr ⟨o, List.mem_of_getElem? hm, hholds⟩] at hfree
        contradiction
    rcases hget.mp hm with ⟨rfl, rfl⟩ | ⟨hmn, hold⟩ <;>
      rcases hget.mp hm' with ⟨rfl, rfl⟩ | ⟨hmn', hold'⟩
    · rfl
    · exact (hnew hmn' hold' hho' hho).elim
    · exact (hnew hmn hold hho hho').elim
    · exact h.exclusive m m' o o' k a hold hold' hho hho'
  · rcases howed k a hslot with hentries | howes | ⟨m, o, hmn, hm, howes⟩
    · exact .inl hentries
    · exact .inr ⟨th', hmem.mpr (.inl rfl), howes⟩
    · exact .inr ⟨o, hmem.mpr (.inr ⟨m, hmn, hm⟩), howes⟩
  · have hold : ∀ {m : Nat} {pc}, u.threads[m]? = some (Thread.remove id pc) →
        ∃ pc₀, s.threads[m]? = some (Thread.remove id pc₀) := by
      intro m pc hm
      rcases hget.mp hm with ⟨rfl, heq⟩ | ⟨-, hold⟩
      · obtain ⟨pc₀, rfl⟩ := hremove heq.symm
        exact ⟨pc₀, hn⟩
      · exact ⟨pc, hold⟩
    obtain ⟨pc₀, hm₀⟩ := hold hm
    obtain ⟨pc₁, hm₁⟩ := hold hm'
    exact h.removers m m' id pc₀ pc₁ hm₀ hm₁
  · have hwas : ∀ k, id < s.nextHandler ∧ (s.Present id k ∨ s.Removing id) →
        id < u.nextHandler ∧ (u.Present id k ∨ u.Removing id) := by
      rintro k ⟨hlt, hpresent | hremoved⟩
      · refine ⟨Nat.lt_of_lt_of_le hlt ha.next, ?_⟩
        rcases ha.present id k hpresent with hpresent' | ⟨pc, rfl⟩
        · exact .inl hpresent'
        · exact .inr (hremoving id ⟨pc, List.mem_of_getElem? hn⟩)
      · exact ⟨Nat.lt_of_lt_of_le hlt ha.next, .inr (hremoving id hremoved)⟩
    rcases hmem.mp hpc with heq | ⟨m, -, hm⟩
    · rcases ha.issued k gate pc id heq.symm hid with ⟨pc₀, rfl, hid₀⟩ | ⟨-, hlt, hpresent⟩
      · exact hwas k (h.registered k gate pc₀ id (List.mem_of_getElem? hn) hid₀)
      · exact ⟨hlt, .inl hpresent⟩
    · exact hwas k (h.registered k gate pc id (List.mem_of_getElem? hm) hid)
  · have hlt : ∀ {m : Nat} {k gate} {pc : RegisterPc},
        s.threads[m]? = some (Thread.register k gate pc) → pc.id? = some id → id < s.nextHandler := by
      intro m k gate pc hm hid
      exact (h.registered k gate pc id (List.mem_of_getElem? hm) hid).1
    rcases hissued hm hid with ⟨k₀, gate₀, pc₀, hm₀, hid₀⟩ | ⟨rfl, hnew⟩ <;>
      rcases hissued hm' hid' with ⟨k₁, gate₁, pc₁, hm₁, hid₁⟩ | ⟨rfl, hnew'⟩
    · exact h.registrars m m' k₀ k₁ gate₀ gate₁ pc₀ pc₁ id hm₀ hm₁ hid₀ hid₁
    · exact absurd (hlt hm₀ hid₀) (by omega)
    · exact absurd (hlt hm₁ hid₁) (by omega)
    · rfl

/-! ## The tables -/

theorem mem_entries {s : Registry κ} {k : κ} {x : SnapshotHandler} :
    x ∈ s.entries k ↔ ∃ e ∈ s.handlers, e.event = k ∧ x = ⟨e.id, e.gate⟩ := by
  unfold Registry.entries
  rw [List.mem_map]
  constructor
  · rintro ⟨e, he, rfl⟩
    obtain ⟨hmem, hevent⟩ := List.mem_filter.mp he
    exact ⟨e, hmem, by simpa using hevent, rfl⟩
  · rintro ⟨e, hmem, hevent, rfl⟩
    exact ⟨e, List.mem_filter.mpr ⟨hmem, by simpa using hevent⟩, rfl⟩

theorem present_iff {id : Nat} {k : κ} : s.Present id k ↔ ∃ x ∈ s.entries k, x.id = id := by
  constructor
  · rintro ⟨e, hmem, hid, hevent⟩
    exact ⟨_, mem_entries.mpr ⟨e, hmem, hevent, rfl⟩, hid⟩
  · rintro ⟨x, hx, hid⟩
    obtain ⟨e, hmem, hevent, rfl⟩ := mem_entries.mp hx
    exact ⟨e, hmem, hid, hevent⟩

theorem Present.entries_ne_nil {id : Nat} {k : κ} (h : s.Present id k) : s.entries k ≠ [] := by
  obtain ⟨x, hx, -⟩ := present_iff.mp h
  exact List.ne_nil_of_mem hx

theorem entries_congr {k : κ} (h : u.handlers = s.handlers) : u.entries k = s.entries k := by
  rw [Registry.entries, Registry.entries, h]

theorem entries_insert {e : HandlerEntry κ} (h : u.handlers = s.handlers ++ [e]) (k : κ) :
    u.entries k = s.entries k ++ if e.event = k then [⟨e.id, e.gate⟩] else [] := by
  rw [Registry.entries, Registry.entries, h, List.filter_append, List.map_append]
  by_cases hevent : e.event = k <;> simp [hevent]

theorem entries_remove {id : Nat} (h : u.handlers = s.handlers.filter (·.id ≠ id)) (k : κ) :
    u.entries k = (s.entries k).filter (·.id ≠ id) := by
  rw [Registry.entries, Registry.entries, h, List.filter_map, List.filter_filter, List.filter_filter]
  congr 1
  refine List.filter_congr fun e _ => ?_
  simp [Bool.and_comm]

theorem Sound.event_unique (h : Sound s) {e e' : HandlerEntry κ} (he : e ∈ s.handlers)
    (he' : e' ∈ s.handlers) (hid : e.id = e'.id) : e = e' := by
  have hnodup : (s.handlers.map (·.id)).Nodup := h.ordered.imp fun hlt => Nat.ne_of_lt hlt
  exact List.inj_on_of_nodup_map hnodup he he' hid

theorem Sound.entries_other (h : Sound s) {id : Nat} {k k' : κ} (hpresent : s.Present id k)
    (hne : k' ≠ k) : (s.entries k').filter (·.id ≠ id) = s.entries k' := by
  refine List.filter_eq_self.mpr fun x hx => ?_
  obtain ⟨e, he, hevent, rfl⟩ := mem_entries.mp hx
  obtain ⟨e', he', hid', hevent'⟩ := hpresent
  refine decide_eq_true fun hid => hne ?_
  rw [← hevent, ← hevent', h.event_unique he he' (hid.trans hid'.symm)]

theorem setWriter_writer {k k' : κ} {a a' : Nat} {b : Bool} :
    (s.setWriter k a b).writer k' a' = if k' = k ∧ a' = a then b else s.writer k' a' := by
  by_cases hk : k' = k
  · subst hk
    by_cases ha : a' = a
    · subst ha
      simp [Registry.setWriter]
    · simp [Registry.setWriter, ha]
  · simp [Registry.setWriter, hk]

theorem setSnapshot_snapshot {k k' : κ} {a a' : Nat} {next : List SnapshotHandler} :
    (s.setSnapshot k a next).snapshot k' a' = if k' = k ∧ a' = a then next else s.snapshot k' a' := by
  by_cases hk : k' = k
  · subst hk
    by_cases ha : a' = a
    · subst ha
      simp [Registry.setSnapshot]
    · simp [Registry.setSnapshot, ha]
  · simp [Registry.setSnapshot, hk]

/-! ## What others keep -/

theorem Keeps.frame {o : Thread κ} (hmade : u.made = s.made) (hslots : u.slots = s.slots)
    (hsnapshot : u.snapshot = s.snapshot) (hhandlers : u.handlers = s.handlers)
    (hnext : u.nextHandler = s.nextHandler) : Keeps s u o := by
  refine ⟨fun k => by rw [hmade], fun k a _ => ⟨fun _ => by rw [hslots], fun hslot => ?_⟩,
    fun id pc k _ hpresent => ⟨?_, fun _ => by rw [hslots]⟩, fun id habsent => ?_⟩
  · exact ⟨by rw [hslots, hslot], entries_congr hhandlers, by rw [hsnapshot]⟩
  · rw [Registry.Present, hhandlers]
    exact hpresent
  · rw [Registry.Absent, hhandlers, hnext]
    exact habsent

theorem Keeps.own {o : Thread κ} {k : κ} {a : Nat} (hslot : s.slots k = some a)
    (ho : o.holds ≠ some (k, a)) (hmade : u.made = s.made)
    (hslots : ∀ k', k' ≠ k → u.slots k' = s.slots k') (hslotk : u.slots k = some a ∨ u.slots k = none)
    (hentries : ∀ k', k' ≠ k → u.entries k' = s.entries k')
    (hsnapshot : ∀ k' a', k' ≠ k → u.snapshot k' a' = s.snapshot k' a')
    (hpresent : ∀ id pc k', o = .remove id pc → s.Present id k' →
      u.Present id k' ∧ (s.slots k' ≠ none → u.slots k' = s.slots k'))
    (habsent : ∀ id, s.Absent id → u.Absent id) : Keeps s u o := by
  refine ⟨fun k' => by rw [hmade], fun k' a' hholds => ?_, hpresent, habsent⟩
  by_cases hk : k' = k
  · subst hk
    have hne : s.slots k' ≠ some a' := by
      intro heq
      rw [hslot] at heq
      cases heq
      exact ho hholds
    refine ⟨fun _ => iff_of_false (fun heq => ?_) hne, fun heq => absurd heq hne⟩
    rcases hslotk with hsome | hnone
    · exact hne (hslot.trans (hsome.symm.trans heq))
    · rw [hnone] at heq
      contradiction
  · exact ⟨fun _ => by rw [hslots k' hk],
      fun heq => ⟨(hslots k' hk).trans heq, hentries k' hk, hsnapshot k' a' hk⟩⟩

/-! ## One step -/

/-- Who owes a handler to a slot still does after the step, or the step has paid. -/
theorem Sound.owed_step (h : Sound s) (hn : s.threads[n]? = some th) {k : κ} {a : Nat}
    (hslot : s.slots k = some a) (hkept : s.entries k ≠ [] → u.entries k ≠ [] ∨ th'.Owes k a)
    (hself : th.Owes k a → u.entries k ≠ [] ∨ th'.Owes k a) :
    u.entries k ≠ [] ∨ th'.Owes k a ∨
      ∃ (m : Nat) (o : Thread κ), m ≠ n ∧ s.threads[m]? = some o ∧ o.Owes k a := by
  rcases h.owed k a hslot with hentries | ⟨o, ho, howes⟩
  · rcases hkept hentries with hentries | howes
    · exact .inl hentries
    · exact .inr (.inl howes)
  · obtain ⟨m, hm⟩ := List.mem_iff_getElem?.mp ho
    by_cases hmn : m = n
    · subst hmn
      rw [hn] at hm
      cases hm
      rcases hself howes with hentries | howes
      · exact .inl hentries
      · exact .inr (.inl howes)
    · exact .inr (.inr ⟨m, o, hmn, hm, howes⟩)

theorem Sound.writer_kept (h : Sound s) (hn : s.threads[n]? = some th) (hholds : th'.holds = th.holds)
    (k : κ) (a : Nat) : s.writer k a = true ↔
      th'.holds = some (k, a) ∨ th.holds ≠ some (k, a) ∧ s.writer k a = true := by
  rw [hholds]
  constructor
  · intro hlocked
    by_cases hheld : th.holds = some (k, a)
    · exact .inl hheld
    · exact .inr ⟨hheld, hlocked⟩
  · rintro (hheld | ⟨-, hlocked⟩)
    · exact (h.writer k a).mpr ⟨th, List.mem_of_getElem? hn, hheld⟩
    · exact hlocked

theorem Sound.others_free (h : Sound s) (hn : s.threads[n]? = some th) {k : κ} {a m : Nat}
    {o : Thread κ} (hheld : th.holds = some (k, a)) (hmn : m ≠ n) (hm : s.threads[m]? = some o) :
    o.holds ≠ some (k, a) :=
  fun ho => hmn (h.exclusive m n o th k a hm hn ho hheld)

theorem Sound.control (h : Sound s) (hn : s.threads[n]? = some th) (hsame : th.Same th')
    (hself : th'.Sane s) {w : κ → Nat → Bool}
    (hw : ∀ k a, w k a = true ↔
      th'.holds = some (k, a) ∨ th.holds ≠ some (k, a) ∧ s.writer k a = true)
    (hacquired : ∀ k a, th'.holds = some (k, a) → th.holds = some (k, a) ∨ s.writer k a = false)
    (hlisted : ∀ k a, s.slots k = some a → th.holds = some (k, a) → th'.holds ≠ some (k, a) →
      s.entries k = s.snapshot k a)
    (howes : ∀ k a, s.slots k = some a → th.Owes k a → s.entries k ≠ [] ∨ th'.Owes k a)
    (hid : ∀ k gate pc id, th' = .register k gate pc → pc.id? = some id →
      ∃ pc₀, th = .register k gate pc₀ ∧ pc₀.id? = some id) :
    Sound { s with writer := w, threads := s.threads.set n th' } := by
  have hkeeps : ∀ o, Keeps s { s with writer := w, threads := s.threads.set n th' } o :=
    fun o => .frame rfl rfl rfl rfl rfl
  refine h.advance ⟨hn, rfl, hsame, fun m o _ _ => hkeeps o, hself.keeps (hkeeps th'), hw,
    hacquired, Nat.le_refl _, fun id k hpresent => .inl hpresent,
    fun k gate pc id heq hpc => .inl (hid k gate pc id heq hpc)⟩ h.made (fun k a hslot hfree => ?_)
    h.stale h.mapped (fun k a hslot => h.owed_step hn hslot .inl (howes k a hslot)) h.ordered h.bound
  by_cases hheld : th.holds = some (k, a)
  · refine hlisted k a hslot hheld fun hholds => ?_
    have hlocked := (hw k a).mpr (.inl hholds)
    rw [show w k a = false from hfree] at hlocked
    contradiction
  · refine h.listed k a hslot ?_
    by_contra hlocked
    have hlocked' := (hw k a).mpr (.inr ⟨hheld, by simpa using hlocked⟩)
    rw [show w k a = false from hfree] at hlocked'
    contradiction

theorem Sound.quiet (h : Sound s) (hn : s.threads[n]? = some th) (hsame : th.Same th')
    (hself : th'.Sane s) (hholds : th'.holds = th.holds)
    (howes : ∀ k a, s.slots k = some a → th.Owes k a → s.entries k ≠ [] ∨ th'.Owes k a)
    (hid : ∀ k gate pc id, th' = .register k gate pc → pc.id? = some id →
      ∃ pc₀, th = .register k gate pc₀ ∧ pc₀.id? = some id) :
    Sound { s with threads := s.threads.set n th' } := by
  exact h.control (w := s.writer) hn hsame hself (h.writer_kept hn hholds)
    (fun k a heq => .inl (hholds ▸ heq)) (fun k a _ hheld hnot => absurd (hholds.trans hheld) hnot)
    howes hid

theorem Sound.acquire (h : Sound s) (hn : s.threads[n]? = some th) (hsame : th.Same th') {k : κ} {a : Nat}
    (hself : th'.Sane s) (hfree : s.writer k a = false) (hwas : th.holds = none)
    (hnow : th'.holds = some (k, a)) (howes : ∀ k a, th.Owes k a → th'.Owes k a)
    (hid : ∀ k gate pc id, th' = .register k gate pc → pc.id? = some id →
      ∃ pc₀, th = .register k gate pc₀ ∧ pc₀.id? = some id) :
    Sound { s.setWriter k a true with threads := s.threads.set n th' } := by
  refine h.control hn hsame hself (fun k' a' => ?_) (fun k' a' heq => .inr ?_)
    (fun k' a' _ hheld => by rw [hwas] at hheld; cases hheld)
    (fun k' a' _ hold => .inr (howes k' a' hold)) hid
  · rw [hnow, hwas, setWriter_writer]
    split_ifs with heq
    · obtain ⟨rfl, rfl⟩ := heq
      simp
    · have hne : ¬ (k = k' ∧ a = a') := fun hsame => heq ⟨hsame.1.symm, hsame.2.symm⟩
      simp [hne]
  · rw [hnow] at heq
    cases heq
    exact hfree

theorem Sound.release (h : Sound s) (hn : s.threads[n]? = some th) (hsame : th.Same th') {k : κ} {a : Nat}
    (hself : th'.Sane s) (hwas : th.holds = some (k, a)) (hnow : th'.holds = none)
    (hlisted : s.slots k = some a → s.entries k = s.snapshot k a) (howes : ∀ k a, ¬ th.Owes k a)
    (hid : ∀ k gate pc id, th' = .register k gate pc → pc.id? = some id →
      ∃ pc₀, th = .register k gate pc₀ ∧ pc₀.id? = some id) :
    Sound { s.setWriter k a false with threads := s.threads.set n th' } := by
  refine h.control hn hsame hself (fun k' a' => ?_) (fun k' a' heq => ?_) (fun k' a' hslot hheld _ => ?_)
    (fun k' a' _ hold => absurd hold (howes k' a')) hid
  · rw [hnow, hwas, setWriter_writer]
    split_ifs with heq
    · obtain ⟨rfl, rfl⟩ := heq
      simp
    · have hne : ¬ (k = k' ∧ a = a') := fun hsame => heq ⟨hsame.1.symm, hsame.2.symm⟩
      simp [hne]
  · rw [hnow] at heq
    cases heq
  · rw [hwas] at hheld
    cases hheld
    exact hlisted hslot

theorem Sound.make (h : Sound s) {k : κ} {gate : Nat} (hn : s.threads[n]? = some (.register k gate .slot))
    (hnone : s.slots k = none) :
    Sound { (s.slot k).1 with threads := s.threads.set n (.register k gate (.lock (s.made k))) } := by
  generalize hu : ({ (s.slot k).1 with
    threads := s.threads.set n (.register k gate (.lock (s.made k))) } : Registry κ) = u
  simp only [Registry.slot, hnone] at hu
  have hmade : ∀ k', s.made k' ≤ u.made k' ∧ (k' ≠ k → u.made k' = s.made k') ∧
      u.made k = s.made k + 1 := by
    intro k'
    subst hu
    by_cases hk : k' = k
    · subst hk
      simp
    · simp [hk]
  have hslot : u.slots k = some (s.made k) := by
    subst hu
    simp
  have hslots : ∀ k', k' ≠ k → u.slots k' = s.slots k' := by
    intro k' hk
    subst hu
    simp [hk]
  have hsnapshot : u.snapshot = s.snapshot := by rw [← hu]
  have hhandlers : u.handlers = s.handlers := by rw [← hu]
  have hnext : u.nextHandler = s.nextHandler := by rw [← hu]
  have hwriter : u.writer = s.writer := by rw [← hu]
  have hentries : ∀ k', u.entries k' = s.entries k' := fun k' => entries_congr hhandlers
  have hempty : s.entries k = [] := by
    by_contra hne
    exact h.mapped k hne hnone
  have hkeeps : ∀ o, Keeps s u o := by
    refine fun o => ⟨fun k' => (hmade k').1, fun k' a' _ => ⟨fun hlt => ?_, fun hwas => ?_⟩,
      fun id pc k' _ hpresent => ⟨?_, fun hne => ?_⟩, fun id habsent => ?_⟩
    · by_cases hk : k' = k
      · subst hk
        rw [hslot, hnone]
        refine iff_of_false (fun heq => ?_) nofun
        cases heq
        omega
      · rw [hslots k' hk]
    · have hk : k' ≠ k := by
        rintro rfl
        rw [hnone] at hwas
        contradiction
      exact ⟨(hslots k' hk).trans hwas, hentries k', by rw [hsnapshot]⟩
    · rw [Registry.Present, hhandlers]
      exact hpresent
    · refine hslots k' ?_
      rintro rfl
      exact hne hnone
    · rw [Registry.Absent, hhandlers, hnext]
      exact habsent
  have ha : Advance s u n (.register k gate .slot) (.register k gate (.lock (s.made k))) := by
    refine ⟨hn, by rw [← hu], .register, fun m o _ _ => hkeeps o, ?_, fun k' a' => ?_, nofun, hnext.ge,
      fun id k' hpresent => .inl ?_, fun k' gate' pc id heq hid => ?_⟩
    · show s.made k < u.made k
      rw [(hmade k).2.2]
      exact Nat.lt_succ_self _
    · rw [hwriter]
      exact h.writer_kept hn rfl k' a'
    · rw [Registry.Present, hhandlers]
      exact hpresent
    · cases heq
      cases hid
  refine h.advance ha (fun k' a' heq => ?_) (fun k' a' heq hfree => ?_) (fun k' a' hne => ?_)
    (fun k' hne => ?_) (fun k' a' heq => ?_) (by rw [hhandlers]; exact h.ordered)
    (by rw [hhandlers, hnext]; exact h.bound)
  · by_cases hk : k' = k
    · subst hk
      rw [hslot] at heq
      cases heq
      rw [(hmade k').2.2]
      exact Nat.lt_succ_self _
    · rw [hslots k' hk] at heq
      exact Nat.lt_of_lt_of_le (h.made k' a' heq) (hmade k').1
  · rw [hentries, hsnapshot]
    by_cases hk : k' = k
    · subst hk
      rw [hempty, h.stale k' a' (by rw [hnone]; nofun)]
    · exact h.listed k' a' ((hslots k' hk).symm.trans heq) (hwriter ▸ hfree)
  · rw [hsnapshot]
    refine h.stale k' a' fun heq => ?_
    have hk : k' ≠ k := by
      rintro rfl
      rw [hnone] at heq
      contradiction
    exact hne ((hslots k' hk).trans heq)
  · rw [hentries] at hne
    by_cases hk : k' = k
    · subst hk
      rw [hslot]
      nofun
    · rw [hslots k' hk]
      exact h.mapped k' hne
  · by_cases hk : k' = k
    · subst hk
      rw [hslot] at heq
      cases heq
      exact .inr (.inl ⟨rfl, rfl⟩)
    · exact h.owed_step hn ((hslots k' hk).symm.trans heq) (fun hne => .inl (by rwa [hentries])) nofun

theorem Sound.insert (h : Sound s) {k : κ} {gate a : Nat}
    (hn : s.threads[n]? = some (.register k gate (.insert a))) :
    Sound { s with
      handlers := s.handlers ++ [⟨s.nextHandler, k, gate⟩]
      nextHandler := s.nextHandler + 1
      threads := s.threads.set n (.register k gate (.load a s.nextHandler)) } := by
  generalize hu : ({ s with
    handlers := s.handlers ++ [⟨s.nextHandler, k, gate⟩]
    nextHandler := s.nextHandler + 1
    threads := s.threads.set n (.register k gate (.load a s.nextHandler)) } : Registry κ) = u
  obtain ⟨hslot, hlisted⟩ : s.slots k = some a ∧ s.entries k = s.snapshot k a := h.sane n _ hn
  have hslots : u.slots = s.slots := by rw [← hu]
  have hsnapshot : u.snapshot = s.snapshot := by rw [← hu]
  have hmade : u.made = s.made := by rw [← hu]
  have hwriter : u.writer = s.writer := by rw [← hu]
  have hnext : u.nextHandler = s.nextHandler + 1 := by rw [← hu]
  have hhandlers : u.handlers = s.handlers ++ [⟨s.nextHandler, k, gate⟩] := by rw [← hu]
  have hentriesk : u.entries k = s.entries k ++ [⟨s.nextHandler, gate⟩] := by
    rw [entries_insert hhandlers k, if_pos rfl]
  have hentries : ∀ k', k' ≠ k → u.entries k' = s.entries k' := by
    intro k' hk
    rw [entries_insert hhandlers k', if_neg fun heq => hk heq.symm, List.append_nil]
  have hpresent : ∀ id k', s.Present id k' → u.Present id k' := by
    rintro id k' ⟨e, he, hid, hevent⟩
    exact ⟨e, by rw [hhandlers]; exact List.mem_append_left _ he, hid, hevent⟩
  have habsent : ∀ id, s.Absent id → u.Absent id := by
    rintro id ⟨hlt, hnone⟩
    refine ⟨by rw [hnext]; omega, fun e he => ?_⟩
    rw [hhandlers] at he
    rcases List.mem_append.mp he with he | he
    · exact hnone e he
    · cases List.mem_singleton.mp he
      exact Nat.ne_of_gt hlt
  have hnew : u.Present s.nextHandler k :=
    ⟨⟨s.nextHandler, k, gate⟩, by rw [hhandlers]; simp, rfl, rfl⟩
  have ha : Advance s u n (.register k gate (.insert a)) (.register k gate (.load a s.nextHandler)) := by
    refine ⟨hn, by rw [← hu], .register, fun m o hmn hm => ?_, ⟨?_, ?_⟩, fun k' a' => ?_,
      fun k' a' hheld => .inl hheld, by omega, fun id k' hp => .inl (hpresent id k' hp),
      fun k' gate' pc id heq hid => .inr ?_⟩
    · exact .own hslot (h.others_free hn rfl hmn hm) hmade (fun k' _ => by rw [hslots])
        (.inl (by rw [hslots, hslot])) hentries (fun k' a' _ => by rw [hsnapshot])
        (fun id pc k' _ hp => ⟨hpresent id k' hp, fun _ => by rw [hslots]⟩) habsent
    · rw [hslots, hslot]
    · rw [hentriesk, hsnapshot, hlisted]
    · rw [hwriter]
      exact h.writer_kept hn rfl k' a'
    · cases heq
      cases hid
      exact ⟨rfl, by omega, hnew⟩
  refine h.advance ha (fun k' a' heq => ?_) (fun k' a' heq hfree => ?_) (fun k' a' hne => ?_)
    (fun k' hne => ?_) (fun k' a' heq => ?_) ?_ (fun e he => ?_)
  · rw [hmade]
    exact h.made k' a' (hslots ▸ heq)
  · rw [hslots] at heq
    rw [hwriter] at hfree
    by_cases hk : k' = k
    · subst hk
      rw [hslot] at heq
      cases heq
      rw [(h.writer k' a).mpr ⟨_, List.mem_of_getElem? hn, rfl⟩] at hfree
      contradiction
    · rw [hentries k' hk, hsnapshot]
      exact h.listed k' a' heq hfree
  · rw [hsnapshot]
    exact h.stale k' a' (hslots ▸ hne)
  · rw [hslots]
    by_cases hk : k' = k
    · subst hk
      rw [hslot]
      nofun
    · exact h.mapped k' (hentries k' hk ▸ hne)
  · by_cases hk : k' = k
    · subst hk
      exact .inl (by rw [hentriesk]; simp)
    · refine h.owed_step hn (hslots ▸ heq) (fun hne => .inl (by rwa [hentries k' hk])) fun howes => ?_
      exact absurd howes.1.symm hk
  · rw [hhandlers, List.map_append]
    refine List.pairwise_append.mpr ⟨h.ordered, List.pairwise_singleton _ _, fun i hi j hj => ?_⟩
    obtain ⟨e, he, rfl⟩ := List.mem_map.mp hi
    rw [List.mem_singleton.mp hj]
    exact h.bound e he
  · rw [hnext]
    rw [hhandlers] at he
    rcases List.mem_append.mp he with he | he
    · exact Nat.lt_succ_of_lt (h.bound e he)
    · cases List.mem_singleton.mp he
      exact Nat.lt_succ_self _

theorem Sound.take (h : Sound s) {id : Nat} {k : κ} {a : Nat}
    (hn : s.threads[n]? = some (.remove id (.take k a))) :
    Sound { s with
      handlers := s.handlers.filter (·.id ≠ id)
      threads := s.threads.set n
        (.remove id (.load k a ((s.handlers.filter (·.id ≠ id)).all (·.event ≠ k)))) } := by
  generalize hlast : (s.handlers.filter (·.id ≠ id)).all (·.event ≠ k) = last
  generalize hu : ({ s with
    handlers := s.handlers.filter (·.id ≠ id)
    threads := s.threads.set n (.remove id (.load k a last)) } : Registry κ) = u
  obtain ⟨hslot, hpresent, hlisted⟩ :
    s.slots k = some a ∧ s.Present id k ∧ s.entries k = s.snapshot k a := h.sane n _ hn
  have hslots : u.slots = s.slots := by rw [← hu]
  have hsnapshot : u.snapshot = s.snapshot := by rw [← hu]
  have hmade : u.made = s.made := by rw [← hu]
  have hwriter : u.writer = s.writer := by rw [← hu]
  have hnext : u.nextHandler = s.nextHandler := by rw [← hu]
  have hhandlers : u.handlers = s.handlers.filter (·.id ≠ id) := by rw [← hu]
  have hentries : ∀ k', k' ≠ k → u.entries k' = s.entries k' := fun k' hk =>
    (entries_remove hhandlers k').trans (h.entries_other hpresent hk)
  have hkept : ∀ id' k', id' ≠ id → s.Present id' k' → u.Present id' k' := by
    rintro id' k' hne ⟨e, he, hid, hevent⟩
    refine ⟨e, ?_, hid, hevent⟩
    rw [hhandlers]
    exact List.mem_filter.mpr ⟨he, by simpa [hid] using hne⟩
  have habsent : ∀ id', s.Absent id' → u.Absent id' := by
    rintro id' ⟨hlt, hnone⟩
    refine ⟨by rw [hnext]; exact hlt, fun e he => hnone e ?_⟩
    rw [hhandlers] at he
    exact (List.mem_filter.mp he).1
  have hgone : u.Absent id := by
    obtain ⟨e, he, hid, -⟩ := hpresent
    refine ⟨by rw [hnext, ← hid]; exact h.bound e he, fun e' he' => ?_⟩
    rw [hhandlers] at he'
    simpa using (List.mem_filter.mp he').2
  have hempty : last = true ↔ u.entries k = [] := by
    rw [← hlast, ← hhandlers, List.all_eq_true, List.eq_nil_iff_forall_not_mem]
    constructor
    · intro hall x hx
      obtain ⟨e, he, hevent, -⟩ := mem_entries.mp hx
      have hne : ¬ e.event = k := by simpa using hall e he
      exact hne hevent
    · intro hnone e he
      refine decide_eq_true fun hevent => ?_
      exact hnone _ (mem_entries.mpr ⟨e, he, hevent, rfl⟩)
  have hothers : ∀ (m : Nat) (o : Thread κ) (id' : Nat) (pc : RemovePc κ), m ≠ n →
      s.threads[m]? = some o → o = .remove id' pc → id' ≠ id := by
    rintro m o id' pc hmn hm rfl rfl
    exact hmn (h.removers m n id' pc _ hm hn)
  have ha : Advance s u n (.remove id (.take k a)) (.remove id (.load k a last)) := by
    refine ⟨hn, by rw [← hu], .remove, fun m o hmn hm => ?_, ⟨by rw [hslots, hslot], ?_, hempty, hgone⟩,
      fun k' a' => ?_, fun k' a' hheld => .inl hheld, hnext.ge, fun id' k' hp => ?_, nofun⟩
    · exact .own hslot (h.others_free hn rfl hmn hm) hmade (fun k' _ => by rw [hslots])
        (.inl (by rw [hslots, hslot])) hentries (fun k' a' _ => by rw [hsnapshot])
        (fun id' pc k' ho hp => ⟨hkept id' k' (hothers m o id' pc hmn hm ho) hp,
          fun _ => by rw [hslots]⟩) habsent
    · rw [entries_remove hhandlers k, hsnapshot, hlisted]
    · rw [hwriter]
      exact h.writer_kept hn rfl k' a'
    · by_cases hid : id' = id
      · subst hid
        exact .inr ⟨_, rfl⟩
      · exact .inl (hkept id' k' hid hp)
  refine h.advance ha (fun k' a' heq => ?_) (fun k' a' heq hfree => ?_) (fun k' a' hne => ?_)
    (fun k' hne => ?_) (fun k' a' heq => ?_) ?_ (fun e he => ?_)
  · rw [hmade]
    exact h.made k' a' (hslots ▸ heq)
  · rw [hslots] at heq
    rw [hwriter] at hfree
    by_cases hk : k' = k
    · subst hk
      rw [hslot] at heq
      cases heq
      rw [(h.writer k' a).mpr ⟨_, List.mem_of_getElem? hn, rfl⟩] at hfree
      contradiction
    · rw [hentries k' hk, hsnapshot]
      exact h.listed k' a' heq hfree
  · rw [hsnapshot]
    exact h.stale k' a' (hslots ▸ hne)
  · rw [hslots]
    refine h.mapped k' fun hnil => hne ?_
    rw [entries_remove hhandlers k', hnil]
    rfl
  · by_cases hk : k' = k
    · subst hk
      rw [hslots, hslot] at heq
      cases heq
      by_cases hnil : u.entries k' = []
      · exact .inr (.inl ⟨rfl, rfl, hempty.mpr hnil⟩)
      · exact .inl hnil
    · exact h.owed_step hn (hslots ▸ heq) (fun hne => .inl (by rwa [hentries k' hk])) nofun
  · rw [hhandlers]
    exact h.ordered.sublist (List.filter_sublist.map _)
  · rw [hhandlers] at he
    rw [hnext]
    exact h.bound e (List.mem_filter.mp he).1

theorem Sound.store (h : Sound s) (hn : s.threads[n]? = some th) (hsame : th.Same th') {k : κ} {a : Nat}
    {next : List SnapshotHandler} (hslot : s.slots k = some a) (hheld : th.holds = some (k, a))
    (hholds : th'.holds = th.holds) (hself : th'.Sane (s.setSnapshot k a next))
    (howes : ∀ k a, th.Owes k a → th'.Owes k a)
    (hid : ∀ k gate pc id, th' = .register k gate pc → pc.id? = some id →
      ∃ pc₀, th = .register k gate pc₀ ∧ pc₀.id? = some id) :
    Sound { s.setSnapshot k a next with threads := s.threads.set n th' } := by
  generalize hu : ({ s.setSnapshot k a next with threads := s.threads.set n th' } : Registry κ) = u
  have hframe : Keeps (s.setSnapshot k a next) u th' := by
    rw [← hu]
    exact .frame rfl rfl rfl rfl rfl
  have hslots : u.slots = s.slots := by rw [← hu]; rfl
  have hmade : u.made = s.made := by rw [← hu]; rfl
  have hwriter : u.writer = s.writer := by rw [← hu]; rfl
  have hnext : u.nextHandler = s.nextHandler := by rw [← hu]; rfl
  have hhandlers : u.handlers = s.handlers := by rw [← hu]; rfl
  have hsnapshot : ∀ k' a', ¬ (k' = k ∧ a' = a) → u.snapshot k' a' = s.snapshot k' a' := by
    intro k' a' hne
    rw [← hu]
    exact setSnapshot_snapshot.trans (if_neg hne)
  have hentries : ∀ k', u.entries k' = s.entries k' := fun k' => entries_congr hhandlers
  have ha : Advance s u n th th' := by
    refine ⟨hn, by rw [← hu], hsame, fun m o hmn hm => ?_, hself.keeps hframe, fun k' a' => ?_,
      fun k' a' heq => .inl (hholds ▸ heq), hnext.ge, fun id k' hp => .inl ?_,
      fun k' gate pc id heq hpc => .inl (hid k' gate pc id heq hpc)⟩
    · exact .own hslot (h.others_free hn hheld hmn hm) hmade (fun k' _ => by rw [hslots])
        (.inl (by rw [hslots, hslot])) (fun k' _ => hentries k')
        (fun k' a' hk => hsnapshot k' a' fun heq => hk heq.1)
        (fun id pc k' _ hp => ⟨by rw [Registry.Present, hhandlers]; exact hp, fun _ => by rw [hslots]⟩)
        (fun id habsent => by rw [Registry.Absent, hhandlers, hnext]; exact habsent)
    · rw [hwriter]
      exact h.writer_kept hn hholds k' a'
    · rw [Registry.Present, hhandlers]
      exact hp
  refine h.advance ha (fun k' a' heq => ?_) (fun k' a' heq hfree => ?_) (fun k' a' hne => ?_)
    (fun k' hne => ?_) (fun k' a' heq => ?_) (by rw [hhandlers]; exact h.ordered)
    (by rw [hhandlers, hnext]; exact h.bound)
  · rw [hmade]
    exact h.made k' a' (hslots ▸ heq)
  · rw [hslots] at heq
    rw [hwriter] at hfree
    have hne : ¬ (k' = k ∧ a' = a) := by
      rintro ⟨rfl, rfl⟩
      rw [(h.writer k' a').mpr ⟨_, List.mem_of_getElem? hn, hheld⟩] at hfree
      contradiction
    rw [hentries, hsnapshot k' a' hne]
    exact h.listed k' a' heq hfree
  · rw [hslots] at hne
    have hne' : ¬ (k' = k ∧ a' = a) := by
      rintro ⟨rfl, rfl⟩
      exact hne hslot
    rw [hsnapshot k' a' hne']
    exact h.stale k' a' hne
  · rw [hslots]
    exact h.mapped k' (hentries k' ▸ hne)
  · exact h.owed_step hn (hslots ▸ heq) (fun hne => .inl (by rwa [hentries k'])) fun hold =>
      .inr (howes k' a' hold)

theorem Sound.unmap (h : Sound s) {id : Nat} {k : κ} {a : Nat}
    (hn : s.threads[n]? = some (.remove id (.unmap k a))) :
    Sound { s with
      slots := Function.update s.slots k none
      threads := s.threads.set n (.remove id (.unlock k a true)) } := by
  generalize hu : ({ s with
    slots := Function.update s.slots k none
    threads := s.threads.set n (.remove id (.unlock k a true)) } : Registry κ) = u
  obtain ⟨hslot, hlisted, hempty, hgone⟩ : s.slots k = some a ∧ s.entries k = s.snapshot k a ∧
    s.entries k = [] ∧ s.Absent id := h.sane n _ hn
  have hslotk : u.slots k = none := by
    rw [← hu]
    simp
  have hslots : ∀ k', k' ≠ k → u.slots k' = s.slots k' := by
    intro k' hk
    rw [← hu]
    simp [hk]
  have hsnapshot : u.snapshot = s.snapshot := by rw [← hu]
  have hmade : u.made = s.made := by rw [← hu]
  have hwriter : u.writer = s.writer := by rw [← hu]
  have hnext : u.nextHandler = s.nextHandler := by rw [← hu]
  have hhandlers : u.handlers = s.handlers := by rw [← hu]
  have hentries : ∀ k', u.entries k' = s.entries k' := fun k' => entries_congr hhandlers
  have ha : Advance s u n (.remove id (.unmap k a)) (.remove id (.unlock k a true)) := by
    refine ⟨hn, by rw [← hu], .remove, fun m o hmn hm => ?_, ⟨?_, fun heq => ?_, fun _ => ?_⟩,
      fun k' a' => ?_, fun k' a' heq => .inl heq, hnext.ge, fun id k' hp => .inl ?_, nofun⟩
    · refine .own hslot (h.others_free hn rfl hmn hm) hmade hslots (.inr hslotk) (fun k' _ => hentries k')
        (fun k' a' _ => by rw [hsnapshot]) (fun id' pc k' _ hp => ⟨?_, fun _ => hslots k' ?_⟩)
        fun id habsent => ?_
      · rw [Registry.Present, hhandlers]
        exact hp
      · -- an event with a handler is not the one that is unmapped
        rintro rfl
        exact Present.entries_ne_nil hp hempty
      · rw [Registry.Absent, hhandlers, hnext]
        exact habsent
    · rw [hmade]
      exact h.made k a hslot
    · rw [hslotk] at heq
      contradiction
    · rw [Registry.Absent, hhandlers, hnext]
      exact hgone
    · rw [hwriter]
      exact h.writer_kept hn rfl k' a'
    · rw [Registry.Present, hhandlers]
      exact hp
  have hother : ∀ {k' a'}, u.slots k' = some a' → k' ≠ k ∧ s.slots k' = some a' := by
    intro k' a' heq
    have hk : k' ≠ k := by
      rintro rfl
      rw [hslotk] at heq
      contradiction
    exact ⟨hk, (hslots k' hk).symm.trans heq⟩
  refine h.advance ha (fun k' a' heq => ?_) (fun k' a' heq hfree => ?_) (fun k' a' hne => ?_)
    (fun k' hne => ?_) (fun k' a' heq => ?_) (by rw [hhandlers]; exact h.ordered)
    (by rw [hhandlers, hnext]; exact h.bound)
  · rw [hmade]
    exact h.made k' a' (hother heq).2
  · rw [hentries, hsnapshot]
    exact h.listed k' a' (hother heq).2 (hwriter ▸ hfree)
  · rw [hsnapshot]
    by_cases hk : k' = k ∧ a' = a
    · obtain ⟨rfl, rfl⟩ := hk
      rw [← hlisted, hempty]
    · refine h.stale k' a' fun heq => ?_
      by_cases hkk : k' = k
      · subst hkk
        rw [hslot] at heq
        cases heq
        exact hk ⟨rfl, rfl⟩
      · exact hne ((hslots k' hkk).trans heq)
  · rw [hentries] at hne
    have hk : k' ≠ k := by
      rintro rfl
      exact hne hempty
    rw [hslots k' hk]
    exact h.mapped k' hne
  · obtain ⟨hk, hwas⟩ := hother heq
    exact h.owed_step hn hwas (fun hne => .inl (by rwa [hentries])) fun howes => absurd howes.1.symm hk

theorem Sound.register_step (h : Sound s) {k : κ} {gate : Nat} {pc pc' : RegisterPc}
    (hn : s.threads[n]? = some (.register k gate pc)) (hs : stepRegister s k gate pc = some (u, pc')) :
    Sound { u with threads := s.threads.set n (.register k gate pc') } := by
  have hsane := h.sane n _ hn
  cases pc with
  | slot =>
    cases hs
    cases hslot : s.slots k with
    | none =>
      have hmake := h.make hn hslot
      simp only [Registry.slot, hslot] at hmake ⊢
      exact hmake
    | some a =>
      have hself : (Thread.register k gate (.lock a)).Sane s := h.made k a hslot
      have hquiet := h.quiet hn .register hself rfl nofun fun k' gate' pc id heq hid => by
        cases heq
        cases hid
      simp only [Registry.slot, hslot]
      exact hquiet
  | lock a =>
    simp only [stepRegister] at hs
    split_ifs at hs with hlocked
    cases hs
    have hfree : s.writer k a = false := by simpa using hlocked
    refine h.acquire hn .register ⟨hsane, fun hslot => h.listed k a hslot hfree⟩ hfree rfl rfl
      (fun k' a' howes => howes) fun k' gate' pc id heq hid => ?_
    cases heq
    cases hid
  | check a =>
    cases hs
    split_ifs with hslot
    · refine h.quiet hn .register ⟨hslot, hsane.2 hslot⟩ rfl (fun k' a' _ howes => .inr howes)
        fun k' gate' pc id heq hid => ?_
      cases heq
      cases hid
    · refine h.quiet hn .register hsane rfl (fun k' a' hmapped howes => ?_)
        fun k' gate' pc id heq hid => ?_
      · obtain ⟨rfl, rfl⟩ := howes
        exact absurd hmapped hslot
      · cases heq
        cases hid
  | drop a =>
    cases hs
    refine h.release hn .register trivial rfl rfl hsane.2 (fun _ _ => id)
      fun k' gate' pc id heq hid => ?_
    cases heq
    cases hid
  | insert a =>
    cases hs
    exact h.insert hn
  | load a id =>
    cases hs
    obtain ⟨hslot, hlisted⟩ := hsane
    refine h.quiet hn .register ⟨hslot, hlisted, rfl⟩ rfl nofun fun k' gate' pc id' heq hid => ?_
    cases heq
    exact ⟨_, rfl, hid⟩
  | store a id next =>
    cases hs
    obtain ⟨hslot, hlisted, -⟩ := hsane
    refine h.store hn .register hslot rfl rfl ⟨hslot, ?_⟩ nofun fun k' gate' pc id' heq hid => ?_
    · rw [setSnapshot_snapshot, if_pos ⟨rfl, rfl⟩]
      exact (entries_congr rfl).trans hlisted
    · cases heq
      exact ⟨_, rfl, hid⟩
  | unlock a id =>
    cases hs
    refine h.release hn .register trivial rfl rfl (fun _ => hsane.2) (fun _ _ => fun hno => hno)
      fun k' gate' pc id' heq hid => ?_
    cases heq
    exact ⟨_, rfl, hid⟩
  | done id => cases hs

theorem Sound.remove_step (h : Sound s) {id : Nat} {pc pc' : RemovePc κ}
    (hn : s.threads[n]? = some (.remove id pc)) (hs : stepRemove s id pc = some (u, pc')) :
    Sound { u with threads := s.threads.set n (.remove id pc') } := by
  have hsane := h.sane n _ hn
  cases pc with
  | find =>
    simp only [stepRemove] at hs
    split at hs
    · rename_i e hfound
      cases hs
      have hpresent : s.Present id e.event :=
        ⟨e, List.mem_of_find?_eq_some hfound, by simpa using List.find?_some hfound, rfl⟩
      exact h.quiet hn .remove hpresent rfl nofun nofun
    · cases hs
      exact h.quiet hn .remove nofun rfl nofun nofun
  | slot k =>
    cases hs
    have hpresent : s.Present id k := hsane
    cases hslot : s.slots k with
    | none => exact absurd hslot (h.mapped k (Present.entries_ne_nil hpresent))
    | some a =>
      have hquiet : Sound { s with threads := s.threads.set n (.remove id (.lock k a)) } :=
        h.quiet hn .remove ⟨hslot, hpresent⟩ rfl nofun nofun
      simp only [Registry.slot, hslot]
      exact hquiet
  | lock k a =>
    simp only [stepRemove] at hs
    split_ifs at hs with hlocked
    cases hs
    have hfree : s.writer k a = false := by simpa using hlocked
    obtain ⟨hslot, hpresent⟩ := hsane
    exact h.acquire hn .remove ⟨hslot, hpresent, h.listed k a hslot hfree⟩ hfree rfl rfl
      (fun _ _ howes => howes) nofun
  | take k a =>
    simp only [stepRemove] at hs
    split_ifs at hs with hany
    · cases hs
      exact h.take hn
    · obtain ⟨-, ⟨e, he, hid, -⟩, -⟩ := hsane
      exact absurd (List.any_eq_true.mpr ⟨e, he, by simpa using hid⟩) hany
  | load k a last =>
    cases hs
    obtain ⟨hslot, hlisted, hlast, hgone⟩ := hsane
    exact h.quiet hn .remove ⟨hslot, hlisted, rfl, hlast, hgone⟩ rfl (fun k' a' _ howes => .inr howes)
      nofun
  | store k a last next =>
    cases hs
    obtain ⟨hslot, hlisted, -, hlast, hgone⟩ := hsane
    refine h.store hn .remove hslot rfl rfl ⟨hslot, ?_, ?_, hgone⟩ (fun k' a' howes => howes) nofun
    · rw [setSnapshot_snapshot, if_pos ⟨rfl, rfl⟩]
      exact (entries_congr rfl).trans hlisted
    · rw [show (s.setSnapshot k a next).entries k = s.entries k from entries_congr rfl]
      exact hlast
  | check k a last =>
    cases hs
    obtain ⟨hslot, hlisted, hlast, hgone⟩ := hsane
    split_ifs with hempty
    · exact h.quiet hn .remove ⟨hslot, hlisted, hlast.mp hempty.1, hgone⟩ rfl
        (fun k' a' _ howes => .inr ⟨howes.1, howes.2.1⟩) nofun
    · refine h.quiet hn .remove ⟨h.made k a hslot, fun _ => hlisted, fun _ => hgone⟩ rfl
        (fun k' a' _ howes => .inl fun hnil => ?_) nofun
      -- a remover that found the arena empty for the event finds the snapshot empty too
      obtain ⟨rfl, rfl, hlast'⟩ := howes
      exact hempty ⟨hlast', hlisted ▸ hnil⟩
  | unmap k a =>
    cases hs
    exact h.unmap hn
  | unlock k a result =>
    cases hs
    obtain ⟨-, hlisted, hgone⟩ := hsane
    exact h.release hn .remove hgone rfl rfl hlisted (fun _ _ => fun hno => hno) nofun
  | done result => cases hs

theorem Sound.spawn (h : Sound s) (hsane : th.Sane s) (hholds : th.holds = none)
    (hremove : ∀ id pc, th = .remove id pc → ¬ s.Removing id)
    (hregister : ∀ k gate pc, th = .register k gate pc → pc.id? = none) : Sound (s.spawn th) := by
  have hkeeps : ∀ o, Keeps s (s.spawn th) o := fun o => .frame rfl rfl rfl rfl rfl
  have hget : ∀ {m : Nat} {o : Thread κ}, (s.spawn th).threads[m]? = some o →
      s.threads[m]? = some o ∨ m = s.threads.length ∧ o = th := by
    intro m o hm
    rw [Registry.spawn, List.getElem?_append] at hm
    split_ifs at hm with hlt
    · exact .inl hm
    · obtain ⟨hzero, rfl⟩ := List.getElem?_eq_some_iff.mp hm
      rw [List.length_singleton] at hzero
      exact .inr ⟨by omega, by simp⟩
  have hmem : ∀ {o : Thread κ}, o ∈ (s.spawn th).threads ↔ o ∈ s.threads ∨ o = th := by
    intro o
    rw [Registry.spawn, List.mem_append, List.mem_singleton]
  refine ⟨fun m o hm => ?_, fun k a => ?_, fun m m' o o' k a hm hm' hho hho' => ?_, h.made, h.listed,
    h.stale, h.mapped, fun k a hslot => ?_, h.ordered, h.bound, fun m m' id pc pc' hm hm' => ?_,
    fun k gate pc id hpc hid => ?_, fun m m' k k' gate gate' pc pc' id hm hm' hid hid' => ?_⟩
  · rcases hget hm with hold | ⟨-, rfl⟩
    · exact (h.sane m o hold).keeps (hkeeps o)
    · exact hsane.keeps (hkeeps o)
  · refine (h.writer k a).trans ⟨?_, ?_⟩
    · rintro ⟨o, ho, hheld⟩
      exact ⟨o, hmem.mpr (.inl ho), hheld⟩
    · rintro ⟨o, ho, hheld⟩
      rcases hmem.mp ho with ho | rfl
      · exact ⟨o, ho, hheld⟩
      · rw [hholds] at hheld
        contradiction
  · rcases hget hm with hold | ⟨-, rfl⟩
    · rcases hget hm' with hold' | ⟨-, rfl⟩
      · exact h.exclusive m m' o o' k a hold hold' hho hho'
      · rw [hholds] at hho'
        contradiction
    · rw [hholds] at hho
      contradiction
  · rcases h.owed k a hslot with hentries | ⟨o, ho, howes⟩
    · exact .inl hentries
    · exact .inr ⟨o, hmem.mpr (.inl ho), howes⟩
  · rcases hget hm with hold | ⟨rfl, heq⟩ <;> rcases hget hm' with hold' | ⟨rfl, heq'⟩
    · exact h.removers m m' id pc pc' hold hold'
    · exact absurd ⟨pc, List.mem_of_getElem? hold⟩ (hremove id pc' heq'.symm)
    · exact absurd ⟨pc', List.mem_of_getElem? hold'⟩ (hremove id pc heq.symm)
    · rfl
  · rcases hmem.mp hpc with hold | heq
    · obtain ⟨hlt, hpresent | ⟨rpc, hremoving⟩⟩ := h.registered k gate pc id hold hid
      · exact ⟨hlt, .inl hpresent⟩
      · exact ⟨hlt, .inr ⟨rpc, hmem.mpr (.inl hremoving)⟩⟩
    · rw [hregister k gate pc heq.symm] at hid
      contradiction
  · rcases hget hm with hold | ⟨-, heq⟩
    · rcases hget hm' with hold' | ⟨-, heq'⟩
      · exact h.registrars m m' k k' gate gate' pc pc' id hold hold' hid hid'
      · rw [hregister k' gate' pc' heq'.symm] at hid'
        contradiction
    · rw [hregister k gate pc heq.symm] at hid
      contradiction

theorem sound_step {l : Registry.Label κ} (h : Sound s) (hok : s.onceRemoved l)
    (hs : s.step l = some u) : Sound u := by
  cases l with
  | register k gate =>
    cases hs
    refine h.spawn trivial rfl nofun fun k' gate' pc heq => ?_
    cases heq
    rfl
  | remove id =>
    cases hs
    refine h.spawn trivial rfl (fun id' pc heq => ?_) nofun
    cases heq
    exact hok
  | dispatch k =>
    cases hs
    exact h.spawn trivial rfl nofun nofun
  | run n =>
    obtain ⟨th, hn, hrun⟩ := Option.bind_eq_some_iff.mp hs
    obtain ⟨⟨v, th'⟩, hv, heq⟩ := Option.bind_eq_some_iff.mp hrun
    cases heq
    cases th with
    | register k gate pc =>
      obtain ⟨⟨w, pc'⟩, hstep, heq⟩ := Option.map_eq_some_iff.mp hv
      cases heq
      exact h.register_step hn hstep
    | remove id pc =>
      obtain ⟨⟨w, pc'⟩, hstep, heq⟩ := Option.map_eq_some_iff.mp hv
      cases heq
      exact h.remove_step hn hstep
    | dispatch k pc =>
      obtain ⟨pc', -, heq⟩ := Option.map_eq_some_iff.mp hv
      cases heq
      exact h.quiet hn .dispatch trivial rfl nofun nofun

theorem sound_new : Sound (Registry.new κ) where
  sane n th hn := absurd hn (by simp [Registry.new])
  writer k a := by simp [Registry.new]
  exclusive n m th th' k a hn := absurd hn (by simp [Registry.new])
  made k a heq := by cases heq
  listed k a heq := by cases heq
  stale k a _ := rfl
  mapped k hne := absurd rfl hne
  owed k a heq := by cases heq
  ordered := List.Pairwise.nil
  bound e he := by cases he
  removers n m id pc pc' hn := absurd hn (by simp [Registry.new])
  registered k gate pc id hpc := by cases hpc
  registrars n m k k' gate gate' pc pc' id hn := absurd hn (by simp [Registry.new])

theorem sound_reach (h : Reach Registry.step onceRemoved (Registry.new κ) s) : Sound s :=
  h.invariant sound_new fun _ _ _ hi hok hs => sound_step hi hok hs

end Step

end Cordis.EventBus
