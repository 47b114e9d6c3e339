import Cordis.Gate.Capability
import Cordis.Library.Machine

/-!
# Publication, closing and cutover

Calls of `publish`, `close` and `cutover_from` on gates that share selectors, each with its atomic
operations one at a time. The write lock of the Fiber keeps a `close` of a gate apart from the one call
that makes the same gate visible; the cutover to another gate takes no part in that. A Fiber is not cut
over from itself.
-/

namespace Cordis

open Machine

/-- A call on gate `gate`. -/
structure GateCall where
  gate : Nat
  op : GateOp
  pc : GatePc
  deriving DecidableEq

/-- The call may make its gate visible. -/
def GateOp.promotes : GateOp → Bool
  | publish | cutoverFrom _ => true
  | close => false

namespace GateCall

variable (x : GateCall)

/-- The call has not returned. -/
def running : Bool :=
  match x.pc with
  | .done _ => false
  | _ => true

/-- The switch of the call has made its gate visible. -/
def took : Bool :=
  match x.op, x.pc with
  | .publish, .done b => b
  | .cutoverFrom _, .retire | .cutoverFrom _, .drain => true
  | .cutoverFrom _, .done b => b
  | _, _ => false

/-- The switch of the call has left gate `g` for good. -/
def leaves (g : Nat) : Bool :=
  match x.op, x.pc with
  | .close, .drain | .close, .done _ => x.gate = g
  | .cutoverFrom old, _ => x.took ∧ old = g
  | _, _ => false

/-- A `close` of gate `g` returned, or a `cutover_from` it returned `true`. -/
def ends (g : Nat) : Bool :=
  match x.op, x.pc with
  | .close, .done _ => x.gate = g
  | .cutoverFrom old, .done b => b ∧ old = g
  | _, _ => false

end GateCall

/-- Gates, and the calls on them in the order in which they were made. -/
structure GateCalls where
  gates : Gates
  calls : List GateCall

inductive GateLabel
  | call (g : Nat) (op : GateOp)
  | atomic (n : Nat)
  | tryAcquire (g : Nat)
  | dropInflight (g : Nat)

namespace GateCalls

variable (s : GateCalls)

/-- The call of `op` on gate `g` may be made now. -/
def admits (g : Nat) : GateOp → Bool
  | .close => s.calls.all fun x => !(x.gate = g ∧ x.op.promotes ∧ x.running)
  | op => op ≠ .cutoverFrom g ∧ s.calls.all fun x =>
      !(x.gate = g ∧ (x.op.promotes ∨ x.running))

def step (s : GateCalls) : GateLabel → Option GateCalls
  | .call g op => if s.admits g op then some { s with calls := s.calls ++ [⟨g, op, .begin⟩] } else none
  | .atomic n =>
    s.calls[n]?.bind fun x => (stepGate s.gates x.gate x.op x.pc).map fun p =>
      ⟨p.1, s.calls.set n { x with pc := p.2 }⟩
  | .tryAcquire g => (s.gates.tryAcquire g).map fun gates => { s with gates }
  | .dropInflight g => (s.gates.dropInflight g).map fun gates => { s with gates }

/-- `is_visible`. -/
def visible (g : Nat) : Prop := s.gates.active (s.gates.selector g) = s.gates.generation g

instance (g : Nat) : Decidable (s.visible g) := inferInstanceAs (Decidable (_ = _))

/-- Gate `g` was published or cut over to. -/
def Took (g : Nat) : Prop := ∃ x ∈ s.calls, x.gate = g ∧ x.took = true

/-- Staged gates, before the first call: the generations that share a selector are distinct. -/
structure Fresh : Prop where
  calls : s.calls = []
  active : ∀ k, s.gates.active k = .NONE
  named : ∀ g, s.gates.generation g ≠ .NONE
  apart : ∀ g h, s.gates.selector g = s.gates.selector h →
    s.gates.generation g = s.gates.generation h → g = h

end GateCalls

/-! ## What one atomic operation does -/

/-- One operation of call `x`, which leaves the gates `t` and the call at `pc'`. -/
inductive GateCall.Acts (x : GateCall) (s t : Gates) (pc' : GatePc) : Prop
  | looked (promotes : x.op.promotes = true) (was : x.pc = .begin) (gates : t = s)
      (now : pc' = .done false ∨ pc' = .switch ∧ (s.gate x.gate).retired = false ∧
        ∀ old, x.op = .cutoverFrom old → s.selector x.gate = s.selector old)
  | missed (promotes : x.op.promotes = true) (was : x.pc = .switch) (gates : t = s)
      (now : pc' = .done false)
  | took (promotes : x.op.promotes = true) (was : x.pc = .switch)
      (how : x.op = .publish ∧ pc' = .done true ∨ ∃ old, x.op = .cutoverFrom old ∧ pc' = .retire ∧
        s.active (s.selector x.gate) = s.generation old)
      (gate : t.gate = s.gate) (selector : t.selector = s.selector)
      (active : t.active = Function.update s.active (s.selector x.gate) (s.generation x.gate))
  | marked (h : Nat) (gates : t = s.retire h)
      (who : x.op = .close ∧ x.gate = h ∧ x.pc = .begin ∧ pc' = .switch ∨
        x.op = .cutoverFrom h ∧ x.pc = .retire ∧ pc' = .drain)
  | cleared (op : x.op = .close) (was : x.pc = .switch) (now : pc' = .drain)
      (gates : t = (s.switch (s.selector x.gate) (s.generation x.gate) .NONE).1)
  | drained (h : Nat) (was : x.pc = .drain) (now : pc' = .done true) (gates : t = s.beginDraining h)
      (who : x.op = .close ∧ x.gate = h ∨ x.op = .cutoverFrom h)

theorem stepGate_acts {x : GateCall} {s t : Gates} {pc' : GatePc}
    (h : stepGate s x.gate x.op x.pc = some (t, pc')) : x.Acts s t pc' := by
  obtain ⟨g, op, pc⟩ := x
  simp only at h
  unfold stepGate at h
  split at h
  · cases h
    refine .looked rfl rfl rfl ?_
    split_ifs with hretired
    · exact .inl rfl
    · exact .inr ⟨rfl, by simpa using hretired, nofun⟩
  · cases h
    unfold Gates.switch
    split_ifs with hactive
    · exact .took rfl rfl (.inl ⟨rfl, rfl⟩) rfl rfl rfl
    · exact .missed rfl rfl rfl rfl
  · cases h
    exact .marked g rfl (.inl ⟨rfl, rfl, rfl, rfl⟩)
  · cases h
    exact .cleared rfl rfl rfl rfl
  · cases h
    exact .drained g rfl rfl rfl (.inl ⟨rfl, rfl⟩)
  · rename_i old
    cases h
    refine .looked rfl rfl rfl ?_
    split_ifs with hbad
    · exact .inl rfl
    · rw [not_or, not_not] at hbad
      refine .inr ⟨rfl, by simpa using hbad.1, fun old' heq => ?_⟩
      cases heq
      exact hbad.2
  · rename_i old
    cases h
    unfold Gates.switch
    by_cases hactive : s.active (s.selector g) = s.generation old
    · rw [if_pos hactive]
      exact .took rfl rfl (.inr ⟨old, rfl, rfl, hactive⟩) rfl rfl rfl
    · rw [if_neg hactive]
      exact .missed rfl rfl rfl rfl
  · cases h
    exact .marked _ rfl (.inr ⟨rfl, rfl, rfl⟩)
  · cases h
    exact .drained _ rfl rfl rfl (.inr rfl)
  · cases h

namespace Gates

variable {s : Gates} {g h : Nat}

theorem retired_retire : ((s.retire g).gate h).retired = (if h = g then true else (s.gate h).retired) := by
  by_cases hg : h = g
  · subst hg
    simp [retire]
  · simp [retire, hg]

theorem switch_none (k : Nat) :
    (s.switch (s.selector g) (s.generation g) .NONE).1.active k = s.active k ∨
      (s.switch (s.selector g) (s.generation g) .NONE).1.active k = .NONE := by
  unfold switch
  split_ifs
  · by_cases hk : k = s.selector g
    · subst hk
      exact .inr (Function.update_self ..)
    · exact .inl (Function.update_of_ne hk ..)
  · exact .inl rfl

theorem switch_cleared (hnamed : s.generation g ≠ .NONE) :
    (s.switch (s.selector g) (s.generation g) .NONE).1.active (s.selector g) ≠ s.generation g := by
  unfold switch
  split_ifs with hactive
  · simpa using hnamed.symm
  · exact hactive

end Gates

namespace GateCall

variable {x : GateCall} {s t : Gates} {pc' : GatePc}

theorem Acts.retired (h : x.Acts s t pc') {g : Nat} (hg : (t.gate g).retired = true) :
    (s.gate g).retired = true ∨ x.op = .close ∧ x.gate = g ∧ x.pc = .begin ∨
      x.op = .cutoverFrom g ∧ x.pc = .retire := by
  cases h with
  | looked _ _ gates | missed _ _ gates =>
    subst gates
    exact .inl hg
  | took _ _ _ gate =>
    rw [gate] at hg
    exact .inl hg
  | marked h gates who =>
    subst gates
    rw [Gates.retired_retire] at hg
    split_ifs at hg with heq
    · subst heq
      rcases who with ⟨hop, hgate, hpc, -⟩ | ⟨hop, hpc, -⟩
      · exact .inr (.inl ⟨hop, hgate, hpc⟩)
      · exact .inr (.inr ⟨hop, hpc⟩)
    · exact .inl hg
  | cleared _ _ _ gates =>
    subst gates
    rw [Gates.switch_gate] at hg
    exact .inl hg
  | drained h _ _ gates =>
    subst gates
    rw [Gates.beginDraining, Gates.retired_withExecution] at hg
    exact .inl hg

theorem Acts.keeps_retired (h : x.Acts s t pc') {g : Nat} (hg : (s.gate g).retired = true) :
    (t.gate g).retired = true := by
  cases h with
  | looked _ _ gates | missed _ _ gates => rwa [gates]
  | took _ _ _ gate => rwa [gate]
  | marked h gates =>
    rw [gates, Gates.retired_retire]
    split_ifs
    · rfl
    · exact hg
  | cleared _ _ _ gates => rwa [gates, Gates.switch_gate]
  | drained h _ _ gates => rwa [gates, Gates.beginDraining, Gates.retired_withExecution]

theorem Acts.accepting (h : x.Acts s t pc') {g : Nat} (hg : t.accepting g = true) : s.accepting g = true := by
  cases h with
  | looked _ _ gates | missed _ _ gates => rwa [gates] at hg
  | took _ _ _ gate =>
    unfold Gates.accepting at hg ⊢
    rwa [gate] at hg
  | marked h gates => rwa [gates, Gates.accepting_retire] at hg
  | cleared _ _ _ gates =>
    unfold Gates.accepting at hg ⊢
    rwa [gates, Gates.switch_gate] at hg
  | drained h _ _ gates =>
    rw [gates, Gates.accepting_beginDraining] at hg
    split_ifs at hg
    exact hg

theorem took_of_leaves {g : Nat} (hpromotes : x.op.promotes = true) (h : x.leaves g = true) :
    x.op = .cutoverFrom g ∧ x.took = true := by
  obtain ⟨k, op, pc⟩ := x
  cases op with
  | publish => cases pc <;> cases h
  | close => cases hpromotes
  | cutoverFrom old =>
    obtain ⟨htook, rfl⟩ := of_decide_eq_true h
    exact ⟨rfl, htook⟩

theorem not_took (h : x.pc = .begin ∨ x.pc = .switch ∨ x.pc = .done false) : x.took = false := by
  obtain ⟨k, op, pc⟩ := x
  rcases h with h | h | h <;> simp only at h <;> subst h <;> cases op <;> rfl

theorem leaves_of_ends {g : Nat} (h : x.ends g = true) : x.leaves g = true := by
  obtain ⟨k, op, pc⟩ := x
  cases op <;> cases pc <;> simp_all [ends, leaves, took]

theorem Acts.unended (h : x.Acts s t pc') (b : Bool) : x.pc ≠ .done b := by
  intro hpc
  cases h with
  | looked _ was | missed _ was | took _ was | cleared _ was | drained _ was => cases hpc.symm.trans was
  | marked _ _ who => rcases who with ⟨-, -, was, -⟩ | ⟨-, was, -⟩ <;> cases hpc.symm.trans was

/-- What a call keeps when it moves on. -/
structure Later (x y : GateCall) : Prop where
  op : y.op = x.op
  running : y.running = true → x.running = true
  took : x.took = true → y.took = true
  ends : ∀ g, x.ends g = true → y.ends g = true

theorem Later.refl (x : GateCall) : x.Later x := ⟨rfl, id, id, fun _ => id⟩

theorem Later.trans {y z : GateCall} (h : x.Later y) (h' : y.Later z) : x.Later z :=
  ⟨h'.op.trans h.op, fun hz => h.running (h'.running hz), fun hx => h'.took (h.took hx),
    fun g hx => h'.ends g (h.ends g hx)⟩

theorem Acts.later (h : x.Acts s t pc') : x.Later { x with pc := pc' } := by
  have hends : ∀ g, x.ends g = true → GateCall.ends { x with pc := pc' } g = true := by
    intro g hg
    have hpc := h.unended
    obtain ⟨k, op, pc⟩ := x
    cases op <;> cases pc <;> simp_all [ends]
  have hrunning : x.running = true := by
    have hpc := h.unended
    unfold running
    split
    · exact absurd ‹_› (hpc _)
    · rfl
  refine ⟨rfl, fun _ => hrunning, fun htook => ?_, hends⟩
  cases h with
  | looked _ was =>
    rw [not_took (.inl was)] at htook
    cases htook
  | missed _ was | took _ was | cleared _ was =>
    rw [not_took (.inr (.inl was))] at htook
    cases htook
  | marked h _ who =>
    obtain ⟨k, op, pc⟩ := x
    rcases who with ⟨rfl, -, rfl, rfl⟩ | ⟨rfl, rfl, rfl⟩
    · cases htook
    · rfl
  | drained h was now _ who =>
    obtain ⟨k, op, pc⟩ := x
    subst now
    rcases who with ⟨rfl, -⟩ | rfl
    · cases pc <;> cases htook
    · rfl

/-- The switches are the only operations that write a selector or leave a gate. -/
theorem Acts.switches (h : x.Acts s t pc') :
    (t.active = s.active ∧ ∀ g, GateCall.leaves { x with pc := pc' } g = true → x.leaves g = true) ∨
      (x.op = .close ∧ x.pc = .switch ∧ pc' = .drain ∧
        t = (s.switch (s.selector x.gate) (s.generation x.gate) .NONE).1) ∨
      x.op.promotes = true ∧ x.pc = .switch ∧
        (x.op = .publish ∧ pc' = .done true ∨ ∃ old, x.op = .cutoverFrom old ∧ pc' = .retire ∧
          s.active (s.selector x.gate) = s.generation old) ∧
        t.active = Function.update s.active (s.selector x.gate) (s.generation x.gate) := by
  obtain ⟨g, op, pc⟩ := x
  cases h with
  | looked promotes was gates now =>
    simp only at promotes was
    subst was
    refine .inl ⟨by rw [gates], fun h hl => ?_⟩
    obtain ⟨hop, htook⟩ := took_of_leaves promotes hl
    simp only at hop
    subst hop
    rcases now with rfl | ⟨rfl, -⟩ <;> cases htook
  | missed promotes was gates now =>
    simp only at promotes
    subst now
    refine .inl ⟨by rw [gates], fun h hl => ?_⟩
    obtain ⟨hop, htook⟩ := took_of_leaves promotes hl
    simp only at hop
    subst hop
    cases htook
  | took promotes was how _ _ active => exact .inr (.inr ⟨promotes, was, how, active⟩)
  | marked k gates who =>
    refine .inl ⟨by rw [gates]; rfl, fun h hl => ?_⟩
    rcases who with ⟨rfl, -, rfl, rfl⟩ | ⟨rfl, rfl, rfl⟩
    · cases hl
    · exact hl
  | cleared op was now gates => exact .inr (.inl ⟨op, was, now, gates⟩)
  | drained k was now gates who =>
    simp only at was
    subst was now
    refine .inl ⟨by rw [gates]; rfl, fun h hl => ?_⟩
    rcases who with ⟨rfl, -⟩ | rfl
    · exact hl
    · exact hl

theorem Acts.ends (h : x.Acts s t pc') {g : Nat} (hg : GateCall.ends { x with pc := pc' } g = true) :
    t.accepting g = false := by
  obtain ⟨k, op, pc⟩ := x
  cases h with
  | looked promotes _ _ now =>
    obtain ⟨-, htook⟩ := took_of_leaves (x := ⟨k, op, pc'⟩) promotes (leaves_of_ends hg)
    rcases now with now | ⟨now, -⟩
    · rw [not_took (x := ⟨k, op, pc'⟩) (.inr (.inr now))] at htook
      cases htook
    · rw [not_took (x := ⟨k, op, pc'⟩) (.inr (.inl now))] at htook
      cases htook
  | missed promotes _ _ now =>
    obtain ⟨-, htook⟩ := took_of_leaves (x := ⟨k, op, pc'⟩) promotes (leaves_of_ends hg)
    rw [not_took (x := ⟨k, op, pc'⟩) (.inr (.inr now))] at htook
    cases htook
  | took _ _ how =>
    rcases how with ⟨hop, rfl⟩ | ⟨old, hop, rfl, -⟩ <;> simp only at hop <;> subst hop <;> cases hg
  | marked _ _ who => rcases who with ⟨rfl, -, -, rfl⟩ | ⟨rfl, -, rfl⟩ <;> cases hg
  | cleared op _ now =>
    simp only at op
    subst op now
    cases hg
  | drained h was now gates who =>
    subst now
    rw [gates, Gates.accepting_beginDraining, if_pos]
    rcases who with ⟨rfl, rfl⟩ | rfl
    · exact (of_decide_eq_true hg).symm
    · exact (of_decide_eq_true hg).2.symm

theorem Acts.closes (h : x.Acts s t pc') {g : Nat} (hg : s.accepting g = true) (hg' : t.accepting g = false) :
    GateCall.ends { x with pc := pc' } g = true := by
  cases h with
  | looked _ _ gates | missed _ _ gates =>
    rw [gates, hg] at hg'
    cases hg'
  | took _ _ _ gate =>
    unfold Gates.accepting at hg hg'
    rw [gate, hg] at hg'
    cases hg'
  | marked h gates =>
    rw [gates, Gates.accepting_retire, hg] at hg'
    cases hg'
  | cleared _ _ _ gates =>
    unfold Gates.accepting at hg hg'
    rw [gates, Gates.switch_gate, hg] at hg'
    cases hg'
  | drained h _ now gates who =>
    rw [gates, Gates.accepting_beginDraining] at hg'
    split_ifs at hg' with heq
    · obtain ⟨k, op, pc⟩ := x
      subst heq now
      rcases who with ⟨rfl, rfl⟩ | rfl
      · exact decide_eq_true rfl
      · exact decide_eq_true ⟨rfl, rfl⟩
    · rw [hg] at hg'
      cases hg'

end GateCall

namespace GateCalls

variable {s s' : GateCalls} {l : GateLabel} {x y : GateCall} {n g : Nat}

/-- Any time while calls are made. -/
structure Ruled (s : GateCalls) : Prop where
  named : ∀ g, s.gates.generation g ≠ .NONE
  apart : ∀ g h, s.gates.selector g = s.gates.selector h →
    s.gates.generation g = s.gates.generation h → g = h
  once : ∀ (n m : Nat) (x y : GateCall), s.calls[n]? = some x → s.calls[m]? = some y → x.gate = y.gate →
    x.op.promotes = true → y.op.promotes = true → n = m
  aside : ∀ x ∈ s.calls, ∀ y ∈ s.calls, x.gate = y.gate → x.op = .close → y.op.promotes = true →
    x.running = true → y.running = false
  other : ∀ x ∈ s.calls, ∀ old, x.op = .cutoverFrom old →
    old ≠ x.gate ∧ (x.pc = .switch ∨ x.took = true → s.gates.selector x.gate = s.gates.selector old) ∧
      (x.took = true → s.Took old)
  holder : ∀ k, s.gates.active k = .NONE ∨
    ∃ g, s.gates.selector g = k ∧ s.gates.generation g = s.gates.active k ∧ s.Took g
  retired : ∀ x ∈ s.calls, (s.gates.gate x.gate).retired = true → x.op.promotes = true → x.pc ≠ .switch
  marked : ∀ x ∈ s.calls, x.op = .close → x.pc ≠ .begin → (s.gates.gate x.gate).retired = true
  left : ∀ x ∈ s.calls, ∀ g, x.leaves g = true → ¬ s.visible g
  shut : ∀ x ∈ s.calls, ∀ g, x.ends g = true → s.gates.accepting g = false

theorem promotes_of_took (h : x.took = true) : x.op.promotes = true ∧ x.pc ≠ .switch ∧ x.pc ≠ .begin := by
  obtain ⟨g, op, pc⟩ := x
  cases op <;> cases pc <;> simp_all [GateCall.took, GateOp.promotes]

/-- The call that took the selector for a gate is the only one that can. -/
theorem Ruled.switching (hr : Ruled s) (hx : x ∈ s.calls) (hpromotes : x.op.promotes = true)
    (hpc : x.pc = .switch) : ¬ s.Took x.gate := by
  rintro ⟨y, hy, hgate, htook⟩
  obtain ⟨n, hn⟩ := List.getElem?_of_mem hx
  obtain ⟨m, hm⟩ := List.getElem?_of_mem hy
  obtain ⟨hpromotes', hne, -⟩ := promotes_of_took htook
  obtain rfl := hr.once n m x y hn hm hgate.symm hpromotes hpromotes'
  rw [hn] at hm
  cases hm
  exact hne hpc

theorem Ruled.unleft (hr : Ruled s) (hx : x ∈ s.calls) (hpromotes : x.op.promotes = true)
    (hpc : x.pc = .switch) : ∀ y ∈ s.calls, y.leaves x.gate = false := by
  intro y hy
  by_contra hleaves
  rw [Bool.not_eq_false] at hleaves
  cases hop : y.op with
  | close =>
    have hpast : y.pc ≠ .begin ∧ y.gate = x.gate := by
      obtain ⟨k, op, pc⟩ := y
      simp only at hop
      subst hop
      cases pc <;> simp [GateCall.leaves] at hleaves ⊢ <;> exact hleaves
    have hretired := hr.marked y hy hop hpast.1
    rw [hpast.2] at hretired
    exact hr.retired x hx hretired hpromotes hpc
  | publish | cutoverFrom =>
    obtain ⟨hcut, htook⟩ := GateCall.took_of_leaves (by rw [hop]; rfl) hleaves
    exact hr.switching hx hpromotes hpc ((hr.other y hy _ hcut).2.2 htook)

/-- What a step makes of the calls: all stay, and call `n` may move on. -/
structure Moved (s : GateCalls) (n : Nat) (x : GateCall) (s' : GateCalls) (pc' : GatePc) : Prop where
  was : s.calls[n]? = some x
  acts : x.Acts s.gates s'.gates pc'
  same : Gates.Same s.gates s'.gates
  calls : s'.calls = s.calls.set n { x with pc := pc' }

theorem step_moved (h : s.step (.atomic n) = some s') : ∃ x pc', Moved s n x s' pc' := by
  obtain ⟨x, hx, h⟩ := Option.bind_eq_some_iff.mp h
  obtain ⟨⟨t, pc'⟩, hp, rfl⟩ := Option.map_eq_some_iff.mp h
  exact ⟨x, pc', hx, stepGate_acts hp, (stepGate_same hp).1, rfl⟩

variable {pc' : GatePc}

theorem Moved.mem (h : Moved s n x s' pc') (hy : y ∈ s'.calls) : y ∈ s.calls ∨ y = { x with pc := pc' } := by
  rw [h.calls] at hy
  exact List.mem_or_eq_of_mem_set hy

theorem Moved.old (h : Moved s n x s' pc') : x ∈ s.calls := List.mem_of_getElem? h.was

theorem Moved.get (h : Moved s n x s' pc') {m : Nat} {y : GateCall} (hm : s'.calls[m]? = some y) :
    ∃ y₀, s.calls[m]? = some y₀ ∧ y.gate = y₀.gate ∧ y.op = y₀.op := by
  rw [h.calls, List.getElem?_set] at hm
  split_ifs at hm with hmn hlt
  · subst hmn
    cases hm
    exact ⟨x, h.was, rfl, rfl⟩
  · exact ⟨y, hm, rfl, rfl⟩

theorem Moved.new (h : Moved s n x s' pc') : { x with pc := pc' } ∈ s'.calls := by
  rw [h.calls]
  exact List.mem_set (List.getElem?_eq_some_iff.mp h.was).1 _

theorem Moved.took (h : Moved s n x s' pc') (hg : s.Took g) : s'.Took g := by
  obtain ⟨y, hy, hgate, htook⟩ := hg
  obtain ⟨m, hm⟩ := List.getElem?_of_mem hy
  by_cases hmn : n = m
  · subst hmn
    rw [h.was] at hm
    cases hm
    exact ⟨_, h.new, hgate, h.acts.later.took htook⟩
  · refine ⟨y, ?_, hgate, htook⟩
    rw [h.calls]
    refine List.mem_of_getElem? (i := m) ?_
    rw [List.getElem?_set_ne hmn, hm]

theorem Ruled.left_moved (hr : Ruled s) (h : Moved s n x s' pc') (hy : y ∈ s'.calls)
    (hleaves : y.leaves g = true) : ¬ s'.visible g := by
  unfold visible
  rw [h.same.selector, h.same.generation]
  intro hvisible
  rcases h.acts.switches with ⟨hactive, hback⟩ | ⟨hop, hpc, rfl, hgates⟩ | ⟨hpromotes, hpc, how, hactive⟩
  · -- nothing new is left
    rw [hactive] at hvisible
    rcases h.mem hy with hold | rfl
    · exact hr.left y hold g hleaves hvisible
    · exact hr.left x h.old g (hback g hleaves) hvisible
  · rw [hgates] at hvisible
    rcases h.mem hy with hold | rfl
    · rcases Gates.switch_none (s := s.gates) (g := x.gate) (s.gates.selector g) with hsame | hnone
      · rw [hsame] at hvisible
        exact hr.left y hold g hleaves hvisible
      · rw [hnone] at hvisible
        exact hr.named g hvisible.symm
    · have hgate : x.gate = g := by
        unfold GateCall.leaves at hleaves
        rw [hop] at hleaves
        exact of_decide_eq_true hleaves
      rw [← hgate] at hvisible
      exact Gates.switch_cleared (hr.named x.gate) hvisible
  · rw [hactive] at hvisible
    by_cases hk : s.gates.selector g = s.gates.selector x.gate
    · -- the gate that takes the selector has not been left
      rw [hk, Function.update_self] at hvisible
      obtain rfl := hr.apart _ _ hk.symm hvisible
      rcases h.mem hy with hold | rfl
      · rw [hr.unleft h.old hpromotes hpc y hold] at hleaves
        cases hleaves
      · obtain ⟨hop, -⟩ := GateCall.took_of_leaves (x := { x with pc := pc' }) hpromotes hleaves
        exact (hr.other x h.old _ hop).1 rfl
    · rw [Function.update_of_ne hk] at hvisible
      rcases h.mem hy with hold | rfl
      · exact hr.left y hold g hleaves hvisible
      · obtain ⟨hop, -⟩ := GateCall.took_of_leaves (x := { x with pc := pc' }) hpromotes hleaves
        exact hk ((hr.other x h.old _ hop).2.1 (.inl hpc)).symm

theorem ruled_moved (hr : Ruled s) (h : Moved s n x s' pc') : Ruled s' where
  named := by
    rw [h.same.generation]
    exact hr.named
  apart := by
    rw [h.same.generation, h.same.selector]
    exact hr.apart
  once := fun m k y z hm hk hgate hy hz => by
    obtain ⟨y₀, hm₀, hyg, hyo⟩ := h.get hm
    obtain ⟨z₀, hk₀, hzg, hzo⟩ := h.get hk
    rw [hyo] at hy
    rw [hzo] at hz
    exact hr.once m k y₀ z₀ hm₀ hk₀ (hyg ▸ hzg ▸ hgate) hy hz
  aside := fun y hy z hz hgate hop hpromotes hrunning => by
    have hlater := h.acts.later
    obtain ⟨y₀, hy₀, hyg, hyo, hyr⟩ : ∃ y₀ ∈ s.calls, y.gate = y₀.gate ∧ y.op = y₀.op ∧
        y₀.running = true := by
      rcases h.mem hy with hold | rfl
      · exact ⟨y, hold, rfl, rfl, hrunning⟩
      · exact ⟨x, h.old, rfl, rfl, hlater.running hrunning⟩
    by_contra hz'
    rw [Bool.not_eq_false] at hz'
    rcases h.mem hz with hold | rfl
    · rw [hr.aside y₀ hy₀ z hold (hyg ▸ hgate) (hyo ▸ hop) hpromotes hyr] at hz'
      cases hz'
    · have hstop := hr.aside y₀ hy₀ x h.old (hyg ▸ hgate) (hyo ▸ hop) hpromotes hyr
      rw [hlater.running hz'] at hstop
      cases hstop
  other := fun y hy old hop => by
    rw [h.same.selector]
    rcases h.mem hy with hold | rfl
    · obtain ⟨hne, hselector, htook⟩ := hr.other y hold old hop
      exact ⟨hne, hselector, fun hy => h.took (htook hy)⟩
    obtain ⟨hne, hselector, htook⟩ := hr.other x h.old old hop
    refine ⟨hne, ?_⟩
    cases h.acts with
    | looked _ _ _ now =>
      rcases now with rfl | ⟨rfl, -, hsame⟩
      · rw [GateCall.not_took (x := ⟨x.gate, x.op, .done false⟩) (.inr (.inr rfl))]
        refine ⟨?_, nofun⟩
        rintro (h | h) <;> cases h
      · rw [GateCall.not_took (x := ⟨x.gate, x.op, .switch⟩) (.inr (.inl rfl))]
        exact ⟨fun _ => hsame old hop, nofun⟩
    | missed _ _ _ now =>
      subst now
      rw [GateCall.not_took (x := ⟨x.gate, x.op, .done false⟩) (.inr (.inr rfl))]
      refine ⟨?_, nofun⟩
      rintro (h | h) <;> cases h
    | took _ was how =>
      refine ⟨fun _ => hselector (.inl was), fun _ => ?_⟩
      rcases how with ⟨hop', -⟩ | ⟨old', hop', -, hactive⟩
      · cases hop.symm.trans hop'
      cases hop.symm.trans hop'
      -- the old gate has the selector, so it has taken it
      rcases hr.holder (s.gates.selector x.gate) with hnone | ⟨g, hg, hgeneration, hgtook⟩
      · rw [hnone] at hactive
        exact absurd hactive.symm (hr.named old)
      · have hsame := hr.apart g old (hg.trans (hselector (.inl was))) (hgeneration.trans hactive)
        exact h.took (hsame ▸ hgtook)
    | cleared hclose => cases hop.symm.trans hclose
    | marked k _ who =>
      rcases who with ⟨hclose, -⟩ | ⟨hcut, hpc, -⟩
      · cases hop.symm.trans hclose
      · have hx : x.took = true := by
          unfold GateCall.took
          rw [hcut, hpc]
        exact ⟨fun _ => hselector (.inr hx), fun _ => h.took (htook hx)⟩
    | drained k was _ _ who =>
      rcases who with ⟨hclose, -⟩ | hcut
      · cases hop.symm.trans hclose
      · have hx : x.took = true := by
          unfold GateCall.took
          rw [hcut, was]
        exact ⟨fun _ => hselector (.inr hx), fun _ => h.took (htook hx)⟩
  holder := fun k => by
    rw [h.same.selector, h.same.generation]
    rcases h.acts.switches with ⟨hactive, -⟩ | ⟨-, -, -, hgates⟩ | ⟨-, -, how, hactive⟩
    · rw [hactive]
      exact (hr.holder k).imp_right fun ⟨g, hk, hg, htook⟩ => ⟨g, hk, hg, h.took htook⟩
    · rw [hgates]
      rcases Gates.switch_none (s := s.gates) (g := x.gate) k with hsame | hnone
      · rw [hsame]
        exact (hr.holder k).imp_right fun ⟨g, hk, hg, htook⟩ => ⟨g, hk, hg, h.took htook⟩
      · exact .inl hnone
    · rw [hactive]
      by_cases hk : k = s.gates.selector x.gate
      · subst hk
        rw [Function.update_self]
        refine .inr ⟨x.gate, rfl, rfl, _, h.new, rfl, ?_⟩
        rcases how with ⟨hop, rfl⟩ | ⟨old, hop, rfl, -⟩ <;> simp [GateCall.took, hop]
      · rw [Function.update_of_ne hk]
        exact (hr.holder k).imp_right fun ⟨g, hk, hg, htook⟩ => ⟨g, hk, hg, h.took htook⟩
  retired := fun y hy hretired hpromotes hpc => by
    rcases h.acts.retired hretired with hbefore | ⟨hop, hgate, hbegin⟩ | ⟨hop, hretire⟩
    · rcases h.mem hy with hold | rfl
      · exact hr.retired y hold hbefore hpromotes hpc
      · -- a retired gate is not published
        cases h.acts with
        | looked _ _ _ now =>
          rcases now with rfl | ⟨-, hlive, -⟩
          · cases hpc
          · rw [show (s.gates.gate x.gate).retired = true from hbefore] at hlive
            cases hlive
        | missed _ _ _ now =>
          subst now
          cases hpc
        | took _ _ how => rcases how with ⟨-, rfl⟩ | ⟨_, -, rfl, -⟩ <;> cases hpc
        | marked _ _ who =>
          rcases who with ⟨hclose, -⟩ | ⟨-, -, rfl⟩
          · rw [show x.op = .close from hclose] at hpromotes
            cases hpromotes
          · cases hpc
        | cleared _ _ now | drained _ _ now =>
          subst now
          cases hpc
    · rcases h.mem hy with hold | rfl
      · have hstop := hr.aside x h.old y hold hgate hop hpromotes (by simp [GateCall.running, hbegin])
        simp [GateCall.running, hpc] at hstop
      · rw [show x.op = .close from hop] at hpromotes
        cases hpromotes
    · obtain ⟨hne, -, htook⟩ := hr.other x h.old _ hop
      have hx : x.took = true := by
        unfold GateCall.took
        rw [hop, hretire]
      rcases h.mem hy with hold | rfl
      · exact hr.switching hold hpromotes hpc (htook hx)
      · exact hne rfl
  marked := fun y hy hop hpc => by
    rcases h.mem hy with hold | rfl
    · exact h.acts.keeps_retired (hr.marked y hold hop hpc)
    by_cases hbegin : x.pc = .begin
    · cases h.acts with
      | looked promotes | missed promotes | took promotes =>
        rw [show x.op = .close from hop] at promotes
        cases promotes
      | marked k gates who =>
        rcases who with ⟨-, hgate, -⟩ | ⟨hcut, -⟩
        · rw [gates, Gates.retired_retire, if_pos hgate]
        · cases hcut.symm.trans hop
      | cleared _ was | drained _ was => cases was.symm.trans hbegin
    · exact h.acts.keeps_retired (hr.marked x h.old hop hbegin)
  left := fun y hy g hleaves => hr.left_moved h hy hleaves
  shut := fun y hy g hends => by
    rcases h.mem hy with hold | rfl
    · by_contra haccepting
      rw [Bool.not_eq_false] at haccepting
      have hwas := h.acts.accepting haccepting
      rw [hr.shut y hold g hends] at hwas
      cases hwas
    · exact h.acts.ends hends

theorem Fresh.ruled (h : s.Fresh) : Ruled s := by
  obtain ⟨hcalls, hactive, hnamed, hapart⟩ := h
  refine ⟨hnamed, hapart, ?_, ?_, ?_, fun k => .inl (hactive k), ?_, ?_, ?_, ?_⟩ <;> rw [hcalls]
  · intro n m x y hn
    cases hn
  all_goals exact fun x hx => absurd hx List.not_mem_nil

theorem ruled_call {op : GateOp} (hr : Ruled s) (hadmits : s.admits g op = true) :
    Ruled { s with calls := s.calls ++ [⟨g, op, .begin⟩] } := by
  have hmem : ∀ y ∈ s.calls ++ [⟨g, op, .begin⟩], y ∈ s.calls ∨ y = ⟨g, op, .begin⟩ := by
    intro y hy
    rcases List.mem_append.mp hy with hold | hnew
    · exact .inl hold
    · exact .inr (List.mem_singleton.mp hnew)
  have htook : ∀ {k}, s.Took k → Took { s with calls := s.calls ++ [⟨g, op, .begin⟩] } k :=
    fun ⟨y, hy, hgate, h⟩ => ⟨y, List.mem_append_left _ hy, hgate, h⟩
  have hfresh : op.promotes = true → op ≠ .cutoverFrom g ∧
      ∀ y ∈ s.calls, y.gate = g → y.op.promotes = false ∧ y.running = false := by
    intro hpromotes
    cases op with
    | close => cases hpromotes
    | publish | cutoverFrom =>
      obtain ⟨hne, hall⟩ := of_decide_eq_true hadmits
      refine ⟨hne, fun y hy hgate => ?_⟩
      simpa [hgate] using List.all_eq_true.mp hall y hy
  have hclose : op = .close → ∀ y ∈ s.calls, y.gate = g → y.op.promotes = true → y.running = false := by
    rintro rfl y hy hgate hpromotes
    have hall := List.all_eq_true.mp hadmits y hy
    simpa [hgate, hpromotes] using hall
  refine ⟨hr.named, hr.apart, ?_, ?_, ?_, ?_, ?_, ?_, ?_, ?_⟩
  · intro n m x y hn hm hgate hx hy
    simp only [List.getElem?_append] at hn hm
    split_ifs at hn hm with hlt hlt'
    · exact hr.once n m x y hn hm hgate hx hy
    · obtain rfl := List.mem_singleton.mp (List.mem_of_getElem? hm)
      have := (hfresh hy).2 x (List.mem_of_getElem? hn) hgate
      rw [hx] at this
      cases this.1
    · obtain rfl := List.mem_singleton.mp (List.mem_of_getElem? hn)
      have := (hfresh hx).2 y (List.mem_of_getElem? hm) hgate.symm
      rw [hy] at this
      cases this.1
    · have hn' := (List.getElem?_eq_some_iff.mp hn).1
      have hm' := (List.getElem?_eq_some_iff.mp hm).1
      rw [List.length_singleton] at hn' hm'
      omega
  · intro x hx y hy hgate hop hpromotes hrunning
    rcases hmem x hx with hxo | rfl <;> rcases hmem y hy with hyo | rfl
    · exact hr.aside x hxo y hyo hgate hop hpromotes hrunning
    · have := (hfresh hpromotes).2 x hxo hgate
      rw [hrunning] at this
      cases this.2
    · exact hclose hop y hyo hgate.symm hpromotes
    · rw [show op = .close from hop] at hpromotes
      cases hpromotes
  · intro x hx old hop
    rcases hmem x hx with hxo | rfl
    · obtain ⟨hne, hselector, h⟩ := hr.other x hxo old hop
      exact ⟨hne, hselector, fun hx => htook (h hx)⟩
    · have hop' : op = .cutoverFrom old := hop
      subst hop'
      refine ⟨fun heq => (hfresh rfl).1 (heq ▸ rfl), ?_, nofun⟩
      rintro (h | h) <;> cases h
  · intro k
    exact (hr.holder k).imp_right fun ⟨g, hk, hg, h⟩ => ⟨g, hk, hg, htook h⟩
  · intro x hx hretired hpromotes hpc
    rcases hmem x hx with hxo | rfl
    · exact hr.retired x hxo hretired hpromotes hpc
    · cases hpc
  · intro x hx hop hpc
    rcases hmem x hx with hxo | rfl
    · exact hr.marked x hxo hop hpc
    · exact absurd rfl hpc
  · intro x hx k hleaves
    rcases hmem x hx with hxo | rfl
    · exact hr.left x hxo k hleaves
    · cases op <;> cases hleaves
  · intro x hx k hends
    rcases hmem x hx with hxo | rfl
    · exact hr.shut x hxo k hends
    · cases op <;> cases hends

theorem ruled_undisturbed {t : Gates} (hr : Ruled s) (h : Gates.Undisturbed s.gates t) :
    Ruled { s with gates := t } where
  named := by
    rw [show Gates.generation t = s.gates.generation from h.generation]
    exact hr.named
  apart := by
    rw [show Gates.generation t = s.gates.generation from h.generation,
      show t.selector = s.gates.selector from h.selector]
    exact hr.apart
  once := hr.once
  aside := hr.aside
  other := fun x hx old hop => by
    rw [show t.selector = s.gates.selector from h.selector]
    exact hr.other x hx old hop
  holder := fun k => by
    simp only [h.selector, h.generation, h.active]
    exact hr.holder k
  retired := fun x hx hretired => hr.retired x hx (h.retired x.gate ▸ hretired)
  marked := fun x hx hop hpc => (h.retired x.gate).trans (hr.marked x hx hop hpc)
  left := fun x hx g hleaves => by
    unfold visible
    simp only [h.selector, h.generation, h.active]
    exact hr.left x hx g hleaves
  shut := fun x hx g hends => by
    rw [show Gates.accepting t = s.gates.accepting from h.accepting]
    exact hr.shut x hx g hends

theorem ruled_step (hr : Ruled s) (h : s.step l = some s') : Ruled s' := by
  cases l with
  | call g op =>
    simp only [step] at h
    split_ifs at h with hadmits
    cases h
    exact ruled_call hr hadmits
  | atomic n =>
    obtain ⟨x, pc', hmoved⟩ := step_moved h
    exact ruled_moved hr hmoved
  | tryAcquire g =>
    obtain ⟨t, ht, rfl⟩ := Option.map_eq_some_iff.mp h
    exact ruled_undisturbed hr (Gates.acquired_undisturbed ht)
  | dropInflight g =>
    obtain ⟨t, ht, rfl⟩ := Option.map_eq_some_iff.mp h
    exact ruled_undisturbed hr (Gates.dropped_undisturbed ht)

theorem ruled_reach {s₀ : GateCalls} (hfresh : s₀.Fresh) (h : Reach step anyStep s₀ s) : Ruled s :=
  h.invariant hfresh.ruled fun _ _ _ hr _ hs => ruled_step hr hs

/-- Admission to a gate is closed by nothing else than a call that returns from it for good. -/
def Opens (s : GateCalls) : Prop := ∀ g, s.gates.accepting g = true ∨ ∃ x ∈ s.calls, x.ends g = true

/-- Staged gates that take leases. -/
structure Staged (s : GateCalls) : Prop extends Fresh s where
  accepting : ∀ g, s.gates.accepting g = true

theorem opens_step (ho : Opens s) (h : s.step l = some s') : Opens s' := by
  intro g
  cases l with
  | call k op =>
    simp only [step] at h
    split_ifs at h
    cases h
    exact (ho g).imp_right fun ⟨x, hx, hends⟩ => ⟨x, List.mem_append_left _ hx, hends⟩
  | tryAcquire k =>
    obtain ⟨t, ht, rfl⟩ := Option.map_eq_some_iff.mp h
    exact (ho g).imp_left fun hg => by rwa [(Gates.acquired_undisturbed ht).accepting]
  | dropInflight k =>
    obtain ⟨t, ht, rfl⟩ := Option.map_eq_some_iff.mp h
    exact (ho g).imp_left fun hg => by rwa [(Gates.dropped_undisturbed ht).accepting]
  | atomic n =>
    obtain ⟨x, pc', hmoved⟩ := step_moved h
    rcases ho g with haccepting | ⟨y, hy, hends⟩
    · by_cases hstill : s'.gates.accepting g = true
      · exact .inl hstill
      · exact .inr ⟨_, hmoved.new, hmoved.acts.closes haccepting (by simpa using hstill)⟩
    · right
      obtain ⟨m, hm⟩ := List.getElem?_of_mem hy
      by_cases hmn : n = m
      · subst hmn
        rw [hmoved.was] at hm
        cases hm
        exact ⟨_, hmoved.new, hmoved.acts.later.ends g hends⟩
      · refine ⟨y, List.mem_of_getElem? (i := m) ?_, hends⟩
        rw [hmoved.calls, List.getElem?_set_ne hmn, hm]

theorem accepting_of_visible {s₀ : GateCalls} (hstaged : s₀.Staged) (h : Reach step anyStep s₀ s)
    (hvisible : s.visible g) : s.gates.accepting g = true := by
  have hopens : Opens s := h.invariant (fun g => .inl (hstaged.accepting g)) fun _ _ _ ho _ hs => opens_step ho hs
  rcases hopens g with haccepting | ⟨x, hx, hends⟩
  · exact haccepting
  · exact absurd hvisible ((ruled_reach hstaged.toFresh h).left x hx g (GateCall.leaves_of_ends hends))

theorem step_call (h : s.step l = some s') (hn : s.calls[n]? = some x) :
    ∃ y, s'.calls[n]? = some y ∧ x.Later y := by
  have hkept : s'.calls[n]? = some x → ∃ y, s'.calls[n]? = some y ∧ x.Later y :=
    fun h => ⟨x, h, .refl x⟩
  cases l with
  | call g op =>
    simp only [step] at h
    split_ifs at h
    cases h
    exact hkept ((List.getElem?_append_left (List.getElem?_eq_some_iff.mp hn).1).trans hn)
  | atomic m =>
    obtain ⟨x', pc', hmoved⟩ := step_moved h
    by_cases hmn : m = n
    · subst hmn
      rw [hmoved.was] at hn
      cases hn
      refine ⟨{ x with pc := pc' }, ?_, hmoved.acts.later⟩
      rw [hmoved.calls, List.getElem?_set_self (List.getElem?_eq_some_iff.mp hmoved.was).1]
    · refine hkept ?_
      rw [hmoved.calls, List.getElem?_set_ne hmn, hn]
  | tryAcquire g | dropInflight g =>
    obtain ⟨t, -, rfl⟩ := Option.map_eq_some_iff.mp h
    exact hkept hn

theorem reach_call (h : Reach step anyStep s s') (hn : s.calls[n]? = some x) :
    ∃ y, s'.calls[n]? = some y ∧ x.Later y := by
  induction h with
  | refl => exact ⟨x, hn, .refl x⟩
  | tail _ _ hstep ih =>
    obtain ⟨y, hy, hlater⟩ := ih
    obtain ⟨z, hz, hlater'⟩ := step_call hstep hy
    exact ⟨z, hz, hlater.trans hlater'⟩

theorem step_changes (h : s.step (.atomic n) = some s') (hn : s.calls[n]? = some x)
    (hpromotes : x.op.promotes = true) (hchanged : s'.gates.active ≠ s.gates.active) :
    ∃ y, s'.calls[n]? = some y ∧ y.op = x.op ∧ y.took = true := by
  obtain ⟨x', pc', hmoved⟩ := step_moved h
  rw [hmoved.was] at hn
  cases hn
  refine ⟨{ x with pc := pc' }, ?_, rfl, ?_⟩
  · rw [hmoved.calls, List.getElem?_set_self (List.getElem?_eq_some_iff.mp hmoved.was).1]
  rcases hmoved.acts.switches with ⟨hactive, -⟩ | ⟨hop, -⟩ | ⟨-, -, how, -⟩
  · exact absurd hactive hchanged
  · rw [hop] at hpromotes
    cases hpromotes
  · unfold GateCall.took
    rcases how with ⟨hop, rfl⟩ | ⟨old, hop, rfl, -⟩ <;> simp only [hop]

/-- Gate `g` is not visible, and grants no lease. -/
def Over (s : GateCalls) (g : Nat) : Prop := ¬ s.visible g ∧ s.gates.tryAcquire g = none

/-- Selectors hold nothing but gates that took them; what is closed, or cut over from, is over for good;
and who gets `false` has changed no selector. -/
theorem selector_gate_protocol {s₀ s : GateCalls} (hfresh : s₀.Fresh) (h : Reach step anyStep s₀ s) :
    (∀ k, s.gates.active k = .NONE ∨
      ∃ g, s.gates.selector g = k ∧ s.gates.generation g = s.gates.active k ∧ s.Took g) ∧
    (∀ x ∈ s.calls, ∀ g, x.ends g = true → ∀ s', Reach step anyStep s s' → s'.Over g) ∧
    ∀ n x s', s.calls[n]? = some x → x.op.promotes = true → s.step (.atomic n) = some s' →
      s'.gates.active ≠ s.gates.active → ∀ s'', Reach step anyStep s' s'' →
        ∀ y, s''.calls[n]? = some y → y.pc ≠ .done false := by
  have hr := ruled_reach hfresh h
  refine ⟨hr.holder, fun x hx g hends s' hs' => ?_, fun n x s' hn hpromotes hs hchanged s'' hs'' y hy => ?_⟩
  · obtain ⟨n, hn⟩ := List.getElem?_of_mem hx
    obtain ⟨y, hy, hlater⟩ := reach_call hs' hn
    have hr' := ruled_reach hfresh (h.trans hs')
    have hmem := List.mem_of_getElem? hy
    have hends' := hlater.ends g hends
    refine ⟨hr'.left y hmem g (GateCall.leaves_of_ends hends'), ?_⟩
    have hshut := hr'.shut y hmem g hends'
    by_contra hsome
    obtain ⟨t, ht⟩ := Option.ne_none_iff_exists'.mp hsome
    rw [(Gates.tryAcquire_eq ht).1] at hshut
    cases hshut
  · obtain ⟨x', hx', -, htook⟩ := step_changes hs hn hpromotes hchanged
    obtain ⟨y', hy', hlater⟩ := reach_call hs'' hx'
    rw [hy'] at hy
    cases hy
    intro hpc
    have hnot := GateCall.not_took (.inr (.inr hpc))
    rw [hlater.took htook] at hnot
    cases hnot

/-- Gates of one plugin. -/
def staged : GateCalls := ⟨⟨fun _ => .NONE, fun _ => 0, fun g => .staged (g + 1)⟩, []⟩

/-- Gate `0` is published and cut over to gate `1` while it is being closed. -/
def racedCutover : List GateLabel :=
  [.call 0 .publish, .atomic 0, .atomic 0, .tryAcquire 0, .call 1 (.cutoverFrom 0), .call 0 .close, .atomic 1,
    .atomic 2, .atomic 1, .atomic 2, .atomic 1, .atomic 1, .atomic 2]

theorem staged_fresh : Fresh staged where
  calls := rfl
  active := fun _ => rfl
  named := fun g => Nat.succ_ne_zero g
  apart := fun _ _ _ h => Nat.succ.inj h

theorem selector_gate_protocol_raced :
    ∃ s, Reach step anyStep staged s ∧ s.calls.map (·.pc) = [.done true, .done true, .done true] ∧
      s.visible 1 ∧ ∀ s', Reach step anyStep s s' → s'.Over 0 := by
  obtain ⟨s, hs, hrest⟩ : ∃ s, run step staged racedCutover = some s ∧
      s.calls = [⟨0, .publish, .done true⟩, ⟨1, .cutoverFrom 0, .done true⟩, ⟨0, .close, .done true⟩] ∧
      s.visible 1 := ⟨_, rfl, by decide, by decide⟩
  have hreach := reach_of_run hs
  have hprotocol := selector_gate_protocol staged_fresh hreach
  refine ⟨s, hreach, by rw [hrest.1]; rfl, hrest.2, fun s' hs' => ?_⟩
  refine hprotocol.2.1 ⟨0, .close, .done true⟩ ?_ 0 rfl s' hs'
  rw [hrest.1]
  simp

end GateCalls

end Cordis
