import Cordis.Library.Machine
import Cordis.Library.Threads
import Cordis.Host.Session
import Mathlib.Data.List.Nodup

/-!
# The pending map of a session

Which thread answers for what: an entry of `pending` belongs to the call that registered it, a response
channel is sent on by whoever took its entry out of the map, and nobody else. From this, for every
interleaving: no request is left behind by a terminal transition, none is completed twice, and the map
is empty once all calls have ended.
-/

namespace Cordis.Session

open Protocol Machine Threads

/-! ## Roles -/

/-- What a thread means for the pending map. -/
inductive Role
  /-- Not registered, and not about to send. -/
  | apart
  /-- A call with an id that is not registered yet. -/
  | owner (id : Nat)
  /-- A call whose registration is armed; `waits` once its own state check has passed. -/
  | registered (id : Nat) (waits : Bool)
  /-- A call on its way out that still has to remove its entry. -/
  | leaving (id : Nat)
  | past
  /-- A `dispatch_response` that took an entry and has not sent yet. -/
  | holder (sender : Nat)
  deriving DecidableEq

/-- The id of an allocated call. -/
def Role.id? : Role → Option Nat
  | owner id | registered id _ | leaving id => some id
  | _ => none

/-- A call that has registered at some time. -/
def Role.Called : Role → Prop
  | registered .. | leaving _ | past => True
  | _ => False

def CallPc.role : CallPc → Role
  | publish id | register id => .owner id
  | recheck id => .registered id false
  | enqueue id | await id => .registered id true
  | refuse (.registration id _) _ | unregister id .. => .leaving id
  | refuse .. | cancel .. | release _ | acknowledge _ | ended _ => .past
  | _ => .apart

def Pc.role (pc : Pc) : Role :=
  match pc with
  | call _ pc => pc.role
  | pc => (pc.holds.map Role.holder).getD .apart

/-- Between the exchange of the state and the end of `resolve_pending`. -/
def TransitionPc.draining : TransitionPc → Bool
  | record | drain => true
  | _ => false

def Pc.draining : Pc → Bool
  | terminate _ pc | dispatch _ (.failing _ _ pc) => pc.draining
  | _ => false

namespace SessionInner

variable (s : SessionInner)

/-- The role of thread `n`. -/
def role (n : Nat) : Role := (s.threads[n]?.map Pc.role).getD .apart

def Terminal : Prop := s.state = .Closed ∨ s.state = .Failed

/-- A terminal transition has finished draining. -/
def Drained : Prop := s.Terminal ∧ ∀ pc ∈ s.threads, pc.draining = false

instance : Decidable s.Terminal := inferInstanceAs (Decidable (_ ∨ _))

instance : Decidable s.Drained := inferInstanceAs (Decidable (_ ∧ _))

/-- Something was sent on the response channel of call `n`. -/
def Answered (n : Nat) : Prop := n ∈ s.replies.map Prod.fst

instance (n : Nat) : Decidable (s.Answered n) := inferInstanceAs (Decidable (_ ∈ _))

end SessionInner

/-! ## What a step does to the map -/

/-- The map, the channels and the ids are as before. -/
structure Untouched (s t : SessionInner) : Prop where
  pending : t.pending = s.pending
  replies : t.replies = s.replies
  nextId : t.nextId = s.nextId

/-- What a step of thread `n` does to the map, by the role it has before and after. -/
inductive Effect (s t : SessionInner) (n : Nat) : Role → Role → Prop
  | keep {r : Role} : Untouched s t → Effect s t n r r
  | pass : Untouched s t → Effect s t n .apart .past
  | accept {i : Nat} : Untouched s t → ¬ s.Terminal →
      Effect s t n (.registered i false) (.registered i true)
  | refuse {i : Nat} {waits : Bool} : Untouched s t →
      Effect s t n (.registered i waits) (.leaving i)
  | answered {i : Nat} : Untouched s t → s.Answered n → Effect s t n (.registered i true) .past
  | allocate : t.pending = s.pending → t.replies = s.replies → s.nextId < t.nextId →
      Effect s t n .apart (.owner s.nextId)
  | register {i : Nat} {e : PendingEntry} : e.sender = n →
      t.pending = (i, e) :: s.pending.filter (·.1 ≠ i) → t.replies = s.replies →
      t.nextId = s.nextId → Effect s t n (.owner i) (.registered i false)
  | unregister {i : Nat} : t.pending = s.pending.filter (·.1 ≠ i) → t.replies = s.replies →
      t.nextId = s.nextId → Effect s t n (.leaving i) .past
  | take {i : Nat} {e : PendingEntry} : (i, e) ∈ s.pending →
      t.pending = s.pending.filter (·.1 ≠ i) → t.replies = s.replies → t.nextId = s.nextId →
      Effect s t n .apart (.holder e.sender)
  | reply {c : Nat} (x : Reply) : t.pending = s.pending → t.replies = s.replies ++ [(c, x)] →
      t.nextId = s.nextId → Effect s t n (.holder c) .apart
  | drain {r : Role} (x : Reply) : t.pending = [] →
      t.replies = s.replies ++ s.pending.map (fun p => (p.2.sender, x)) → t.nextId = s.nextId →
      Effect s t n r r

/-- A step neither finishes a drain nor makes the state terminal behind the back of one, unless it
empties the map. -/
def Settles (s t : SessionInner) (draining draining' : Bool) : Prop :=
  t.pending = [] ∨
    (t.Terminal → s.Terminal ∨ draining' = true) ∧ (draining = true → draining' = true)

theorem Untouched.refl (s : SessionInner) : Untouched s s := ⟨rfl, rfl, rfl⟩

theorem required_not_terminal {s : SessionInner} {op : Operation} (h : s.state = op.required) :
    ¬ s.Terminal := by
  rintro (hs | hs) <;> rw [hs] at h <;> cases op <;> cases h

theorem stepBegin_effect (s : SessionInner) (n : Nat) (op : Operation) :
    Effect s (stepBegin s op).1 n .apart (stepBegin s op).2.role ∧
      ((stepBegin s op).1.Terminal → s.Terminal) := by
  unfold stepBegin
  split
  · split_ifs
    · exact ⟨.keep ⟨rfl, rfl, rfl⟩, by simp [SessionInner.Terminal]⟩
    · exact ⟨.pass (.refl s), id⟩
  · split_ifs
    · exact ⟨.keep ⟨rfl, rfl, rfl⟩, by simp [SessionInner.Terminal]⟩
    · exact ⟨.pass (.refl s), id⟩
  · split
    · exact ⟨.pass (.refl s), id⟩
    · exact ⟨.keep (.refl s), id⟩
  · split
    · exact ⟨.pass (.refl s), id⟩
    · exact ⟨.keep (.refl s), id⟩
  · exact ⟨.keep (.refl s), id⟩

theorem trySend_untouched (s : SessionInner) (message : Message) :
    Untouched s (s.trySend message) ∧ (s.trySend message).state = s.state := by
  unfold SessionInner.trySend
  split_ifs
  · exact ⟨⟨rfl, rfl, rfl⟩, rfl⟩
  · exact ⟨.refl s, rfl⟩

theorem stepEnqueue_effect {s t : SessionInner} {n id : Nat} {op : Operation} {pc' : CallPc}
    (h : stepEnqueue s op id = some (t, pc')) :
    Effect s t n (.registered id true) pc'.role ∧ (t.Terminal → s.Terminal) := by
  unfold stepEnqueue at h
  split_ifs at h <;> cases h
  · exact ⟨.keep ⟨rfl, rfl, rfl⟩, fun h => h⟩
  all_goals exact ⟨.refuse (.refl s), fun h => h⟩

theorem mem_of_lookup {α : Type} {l : List (Nat × α)} {k : Nat} {a : α}
    (h : l.lookup k = some a) : (k, a) ∈ l := by
  obtain ⟨l₁, l₂, rfl, -⟩ := List.lookup_eq_some_iff.mp h
  exact List.mem_append_right l₁ (List.mem_cons_self ..)

theorem stepAwait_effect {s t : SessionInner} {n id : Nat} {op : Operation} {pc' : CallPc}
    (h : stepAwait s n op id = some (t, pc')) :
    Effect s t n (.registered id true) pc'.role ∧ (t.Terminal → s.Terminal) := by
  unfold stepAwait at h
  split at h
  · rename_i reply hreply
    cases h
    refine ⟨.answered (.refl s) ?_, fun h => h⟩
    exact List.mem_map.mpr ⟨(n, reply), mem_of_lookup hreply, rfl⟩
  · split_ifs at h
    all_goals
      cases h
      exact ⟨.refuse (.refl s), fun h => h⟩

theorem give_role (held : Held) (result : Option Reply) (fallback : String) :
    (held.give result).role = (CallPc.refuse held fallback).role := by
  cases held <;> rfl

theorem stepCall_effect {s t : SessionInner} {n : Nat} {op : Operation} {b : Bool}
    {pc pc' : CallPc} (h : stepCall s n op b pc = some (t, pc')) :
    Effect s t n pc.role pc'.role ∧ (t.Terminal → s.Terminal) := by
  cases pc with
  | begin =>
    have hbegin := stepBegin_effect s n op
    rwa [Option.some.inj h] at hbegin
  | checkState =>
    simp only [stepCall] at h
    split_ifs at h <;> cases h
    · exact ⟨.pass (.refl s), id⟩
    · exact ⟨.keep (.refl s), id⟩
  | acquire =>
    simp only [stepCall] at h
    split_ifs at h <;> cases h
    · exact ⟨.keep ⟨rfl, rfl, rfl⟩, id⟩
    · exact ⟨.keep ⟨rfl, rfl, rfl⟩, id⟩
    · exact ⟨.pass (.refl s), id⟩
  | checkAgain =>
    simp only [stepCall] at h
    split_ifs at h <;> cases h
    · exact ⟨.pass (.refl s), id⟩
    · exact ⟨.keep (.refl s), id⟩
  | allocate =>
    simp only [stepCall] at h
    split_ifs at h <;> cases h
    · exact ⟨.pass (.refl s), id⟩
    · exact ⟨.keep (.refl s), id⟩
  | exchange i =>
    simp only [stepCall] at h
    split_ifs at h with hid <;> cases h
    · obtain ⟨rfl, -⟩ := hid
      exact ⟨.allocate rfl rfl (Nat.lt_succ_self _), id⟩
    · exact ⟨.keep (.refl s), id⟩
  | publish i =>
    cases h
    exact ⟨.keep ⟨rfl, rfl, rfl⟩, id⟩
  | register i =>
    cases h
    exact ⟨.register rfl rfl rfl rfl, id⟩
  | recheck i =>
    simp only [stepCall] at h
    split_ifs at h with hstate <;> cases h
    · exact ⟨.refuse (.refl s), id⟩
    · exact ⟨.accept (.refl s) (required_not_terminal (not_not.mp hstate)), id⟩
  | enqueue i => exact stepEnqueue_effect h
  | await i => exact stepAwait_effect h
  | refuse held fallback =>
    simp only [stepCall] at h
    split_ifs at h
    cases h
    rw [give_role held _ fallback]
    exact ⟨.keep (.refl s), id⟩
  | unregister i result guarded =>
    cases h
    cases guarded <;> exact ⟨.unregister rfl rfl rfl, id⟩
  | cancel i result =>
    cases h
    split_ifs
    · obtain ⟨hsame, hstate⟩ := trySend_untouched s (.Cancel (UInt64.ofNat i))
      refine ⟨.keep hsame, ?_⟩
      unfold SessionInner.Terminal
      rw [hstate]
      exact id
    · exact ⟨.keep (.refl s), id⟩
  | release result =>
    simp only [stepCall] at h
    split at h <;> cases h <;> exact ⟨.keep ⟨rfl, rfl, rfl⟩, id⟩
  | acknowledge result =>
    cases h
    exact ⟨.keep ⟨rfl, rfl, rfl⟩, id⟩
  | ended result => cases h

theorem dropCall_effect {s : SessionInner} {n : Nat} {op : Operation} {pc pc' : CallPc}
    (h : dropCall op pc = some pc') : Effect s s n pc.role pc'.role := by
  unfold dropCall at h
  split at h
  · cases h
    exact .pass (.refl s)
  · split_ifs at h
    cases h
    exact .pass (.refl s)
  · cases h
    exact .pass (.refl s)
  · split_ifs at h
    cases h
    exact .refuse (.refl s)
  · cases h
    exact .refuse (.refl s)
  · cases h

theorem stepTransition_effect {s t : SessionInner} {terminal : Terminal}
    {pc pc' : TransitionPc} (n : Nat) (r : Role) (h : stepTransition s terminal pc = some (t, pc')) :
    Effect s t n r r ∧ Settles s t pc.draining pc'.draining := by
  cases pc with
  | lock =>
    simp only [stepTransition] at h
    split_ifs at h
    cases h
    exact ⟨.keep ⟨rfl, rfl, rfl⟩, .inr ⟨.inl, id⟩⟩
  | load =>
    simp only [stepTransition] at h
    split_ifs at h <;> cases h
    · exact ⟨.keep ⟨rfl, rfl, rfl⟩, .inr ⟨.inl, id⟩⟩
    · exact ⟨.keep (.refl s), .inr ⟨.inl, id⟩⟩
  | exchange current =>
    simp only [stepTransition] at h
    split_ifs at h <;> cases h
    · exact ⟨.keep ⟨rfl, rfl, rfl⟩, .inr ⟨fun _ => .inr rfl, fun _ => rfl⟩⟩
    · exact ⟨.keep (.refl s), .inr ⟨.inl, id⟩⟩
  | record =>
    cases terminal <;> cases h <;> exact ⟨.keep ⟨rfl, rfl, rfl⟩, .inr ⟨.inl, id⟩⟩
  | drain =>
    cases h
    exact ⟨.drain _ rfl rfl rfl, .inl rfl⟩
  | stop =>
    cases h
    exact ⟨.keep ⟨rfl, rfl, rfl⟩, .inr ⟨.inl, nofun⟩⟩
  | force =>
    cases h
    exact ⟨.keep ⟨rfl, rfl, rfl⟩, .inr ⟨.inl, nofun⟩⟩
  | notify =>
    cases h
    exact ⟨.keep (.refl s), .inr ⟨.inl, nofun⟩⟩
  | done won => cases h

theorem Settles.calm {s t : SessionInner} (h : t.Terminal → s.Terminal) :
    Settles s t false false := .inr ⟨fun ht => .inl (h ht), nofun⟩

theorem stepDispatch_effect {s t : SessionInner} {n : Nat} {message : Message}
    {pc pc' : DispatchPc} (h : stepDispatch s message pc = some (t, pc')) :
    Effect s t n (Pc.dispatch message pc).role (Pc.dispatch message pc').role ∧
      Settles s t (Pc.dispatch message pc).draining (Pc.dispatch message pc').draining := by
  cases pc with
  | check =>
    simp only [stepDispatch] at h
    split_ifs at h <;> cases h <;> exact ⟨.keep (.refl s), .calm id⟩
  | remove =>
    simp only [stepDispatch] at h
    split at h
    · cases h
      exact ⟨.keep (.refl s), .calm id⟩
    · rename_i entry hentry
      cases h
      exact ⟨.take (mem_of_lookup hentry) rfl rfl rfl, .calm id⟩
  | judge entry =>
    rw [stepDispatch] at h
    split at h
    · cases h
      exact ⟨.keep (.refl s), .calm id⟩
    · split at h
      · cases h
        exact ⟨.keep (.refl s), .calm id⟩
      · split at h <;> cases h <;> exact ⟨.keep (.refl s), .calm id⟩
  | failing error entry transition =>
    simp only [stepDispatch] at h
    split at h
    · cases h
      exact ⟨.keep (.refl s), .calm id⟩
    · cases h
      exact ⟨.keep (.refl s), .calm id⟩
    · obtain ⟨p, hp, hpc⟩ := Option.map_eq_some_iff.mp h
      cases hpc
      cases entry <;> exact stepTransition_effect n _ hp
  | acknowledge entry =>
    cases h
    exact ⟨.keep ⟨rfl, rfl, rfl⟩, .calm id⟩
  | reply entry reply go =>
    cases h
    exact ⟨.reply reply rfl rfl rfl, .calm id⟩
  | done entry go => cases h

theorem stepNegotiate_effect {s t : SessionInner} {limits : Limits} {pc pc' : NegotiatePc}
    (h : stepNegotiate s limits pc = some (t, pc')) :
    Untouched s t ∧ (t.Terminal → s.Terminal) := by
  cases pc with
  | check =>
    simp only [stepNegotiate] at h
    split at h
    · cases h
      exact ⟨.refl s, id⟩
    · split_ifs at h <;> cases h <;> exact ⟨.refl s, id⟩
  | forget shrink =>
    cases h
    exact ⟨⟨rfl, rfl, rfl⟩, id⟩
  | install =>
    cases h
    exact ⟨⟨rfl, rfl, rfl⟩, id⟩
  | ready =>
    simp only [stepNegotiate] at h
    split_ifs at h <;> cases h
    · exact ⟨⟨rfl, rfl, rfl⟩, by simp [SessionInner.Terminal]⟩
    · exact ⟨.refl s, id⟩
  | done accepted => cases h

theorem stepThread_effect {s t : SessionInner} {n : Nat} {b : Bool} {pc pc' : Pc}
    (h : stepThread s n b pc = some (t, pc')) :
    Effect s t n pc.role pc'.role ∧ Settles s t pc.draining pc'.draining := by
  cases pc with
  | call op pc =>
    obtain ⟨p, hp, hpc⟩ := Option.map_eq_some_iff.mp h
    cases hpc
    obtain ⟨heffect, hstate⟩ := stepCall_effect hp
    exact ⟨heffect, .calm hstate⟩
  | dispatch message pc =>
    obtain ⟨p, hp, hpc⟩ := Option.map_eq_some_iff.mp h
    cases hpc
    exact stepDispatch_effect hp
  | terminate terminal pc =>
    obtain ⟨p, hp, hpc⟩ := Option.map_eq_some_iff.mp h
    cases hpc
    exact stepTransition_effect n _ hp
  | negotiate limits pc =>
    obtain ⟨p, hp, hpc⟩ := Option.map_eq_some_iff.mp h
    cases hpc
    obtain ⟨hsame, hstate⟩ := stepNegotiate_effect hp
    exact ⟨.keep hsame, .calm hstate⟩

theorem answered_congr {s t : SessionInner} {c : Nat} (h : t.replies = s.replies) :
    t.Answered c ↔ s.Answered c := by
  unfold SessionInner.Answered
  rw [h]

/-! ## Who answers for what -/

/-- The entries of the map and the sends on response channels, against the roles of the threads. -/
structure Tracked (s : SessionInner) (role : Nat → Role) : Prop where
  allocated : ∀ n i, (role n).id? = some i → i < s.nextId
  distinct : ∀ n m i, (role n).id? = some i → (role m).id? = some i → n = m
  keys : (s.pending.map Prod.fst).Nodup
  /-- The entry of an id belongs to the call with this id, which is registered or leaving. -/
  entries : ∀ i e, (i, e) ∈ s.pending → (role e.sender).id? = some i ∧ (role e.sender).Called
  once : (s.replies.map Prod.fst).Nodup
  unanswered : ∀ i e, (i, e) ∈ s.pending → ¬ s.Answered e.sender
  held : ∀ n c, role n = .holder c → ¬ s.Answered c ∧ ∀ i e, (i, e) ∈ s.pending → e.sender ≠ c
  heldOnce : ∀ n m c, role n = .holder c → role m = .holder c → n = m
  channel : ∀ n i w, role n = .registered i w →
    (∃ e, (i, e) ∈ s.pending ∧ e.sender = n) ∨ s.Answered n ∨ ∃ m, role m = .holder n
  /-- Only calls that have registered are answered. -/
  called : ∀ c, s.Answered c ∨ (∃ m, role m = .holder c) → (role c).Called

namespace Tracked

variable {s t : SessionInner} {role : Nat → Role} {n : Nat} {r r' : Role}

theorem initial (h₁ : s.pending = []) (h₂ : s.replies = []) (hrole : ∀ m, role m = .apart) :
    Tracked s role where
  allocated n i hi := by rw [hrole] at hi; cases hi
  distinct n m i hi := by rw [hrole] at hi; cases hi
  keys := by rw [h₁]; exact List.nodup_nil
  entries i e he := by rw [h₁] at he; cases he
  once := by rw [h₂]; exact List.nodup_nil
  unanswered i e he := by rw [h₁] at he; cases he
  held n c hc := by rw [hrole] at hc; cases hc
  heldOnce n m c hc := by rw [hrole] at hc; cases hc
  channel n i w hw := by rw [hrole] at hw; cases hw
  called c hc := by
    obtain hc | ⟨m, hm⟩ := hc
    · unfold SessionInner.Answered at hc
      rw [h₂] at hc
      cases hc
    · rw [hrole] at hm
      cases hm

theorem moved (h : Tracked s role) (hn : role n = r) (hp : t.pending = s.pending)
    (hr : t.replies = s.replies) (hle : s.nextId ≤ t.nextId)
    (hid : ∀ i, r'.id? = some i → r.id? = some i ∨ i = s.nextId ∧ s.nextId < t.nextId)
    (hentry : ∀ i e, (i, e) ∈ s.pending → e.sender = n → r'.id? = some i ∧ r'.Called)
    (hholder : ∀ c, r' = .holder c ↔ r = .holder c)
    (hregistered : ∀ i w, r' = .registered i w → ∃ w', r = .registered i w')
    (hcalled : r.Called → r'.Called) : Tracked t (Function.update role n r') := by
  have hholds : ∀ m c, Function.update role n r' m = .holder c ↔ role m = .holder c := by
    intro m c
    by_cases hm : m = n
    · subst hm
      rw [Function.update_self, hholder, hn]
    · rw [Function.update_of_ne hm]
  -- an id of the new roles is an id of the old ones, or the one just allocated
  have hids : ∀ m i, (Function.update role n r' m).id? = some i →
      (role m).id? = some i ∨ m = n ∧ i = s.nextId ∧ s.nextId < t.nextId := by
    intro m i hi
    by_cases hm : m = n
    · subst hm
      rw [Function.update_self] at hi
      rw [hn]
      exact (hid i hi).imp id fun hnew => ⟨rfl, hnew⟩
    · rw [Function.update_of_ne hm] at hi
      exact .inl hi
  constructor
  · intro m i hi
    rcases hids m i hi with hold | ⟨-, rfl, hlt⟩
    · exact (h.allocated m i hold).trans_le hle
    · exact hlt
  · intro m m' i hi hi'
    rcases hids m i hi with hold | ⟨rfl, rfl, -⟩
    · rcases hids m' i hi' with hold' | ⟨-, rfl, -⟩
      · exact h.distinct m m' i hold hold'
      · exact absurd (h.allocated m _ hold) (lt_irrefl _)
    · rcases hids m' _ hi' with hold' | ⟨rfl, -⟩
      · exact absurd (h.allocated m' _ hold') (lt_irrefl _)
      · rfl
  · rw [hp]
    exact h.keys
  · intro i e he
    rw [hp] at he
    by_cases hm : e.sender = n
    · rw [hm, Function.update_self]
      exact hentry i e he hm
    · rw [Function.update_of_ne hm]
      exact h.entries i e he
  · rw [hr]
    exact h.once
  · intro i e he
    rw [hp] at he
    rw [answered_congr hr]
    exact h.unanswered i e he
  · intro m c hc
    rw [answered_congr hr, hp]
    exact h.held m c ((hholds m c).mp hc)
  · intro m m' c hc hc'
    exact h.heldOnce m m' c ((hholds m c).mp hc) ((hholds m' c).mp hc')
  · intro m i w hw
    have hold : ∃ w', role m = .registered i w' := by
      by_cases hm : m = n
      · subst hm
        rw [Function.update_self] at hw
        rw [hn]
        exact hregistered i w hw
      · rw [Function.update_of_ne hm] at hw
        exact ⟨w, hw⟩
    obtain ⟨w', hw'⟩ := hold
    rw [hp, answered_congr hr]
    simp only [hholds]
    exact h.channel m i w' hw'
  · intro c hc
    rw [answered_congr hr] at hc
    simp only [hholds] at hc
    have hold := h.called c hc
    by_cases hm : c = n
    · subst hm
      rw [Function.update_self]
      rw [hn] at hold
      exact hcalled hold
    · rwa [Function.update_of_ne hm]

theorem entry_unique (h : Tracked s role) {i j : Nat} {e e' : PendingEntry} (he : (i, e) ∈ s.pending)
    (he' : (j, e') ∈ s.pending) (hsender : e.sender = e'.sender) : i = j := by
  have hi := (h.entries i e he).1
  have hj := (h.entries j e' he').1
  rw [hsender, hj] at hi
  exact (Option.some.inj hi).symm

theorem entry_of_key (h : Tracked s role) {i : Nat} {e e' : PendingEntry} (he : (i, e) ∈ s.pending)
    (he' : (i, e') ∈ s.pending) : e = e' :=
  Prod.mk.inj (List.inj_on_of_nodup_map h.keys he he' rfl) |>.2

theorem mem_filter_ne {l : List (Nat × PendingEntry)} {i j : Nat} {e : PendingEntry} :
    (j, e) ∈ l.filter (·.1 ≠ i) ↔ (j, e) ∈ l ∧ j ≠ i := by
  simp

theorem register (h : Tracked s role) {i : Nat} {e : PendingEntry} (hn : role n = .owner i)
    (hsender : e.sender = n) (hp : t.pending = (i, e) :: s.pending.filter (·.1 ≠ i))
    (hr : t.replies = s.replies) (hid : t.nextId = s.nextId) :
    Tracked t (Function.update role n (.registered i false)) := by
  have hids : ∀ m, (Function.update role n (.registered i false) m).id? = (role m).id? := by
    intro m
    by_cases hm : m = n
    · subst hm
      rw [Function.update_self, hn]
      rfl
    · rw [Function.update_of_ne hm]
  have hholds : ∀ m c, Function.update role n (.registered i false) m = .holder c ↔
      role m = .holder c := by
    intro m c
    by_cases hm : m = n
    · subst hm
      rw [Function.update_self, hn]
      constructor <;> intro hc <;> cases hc
    · rw [Function.update_of_ne hm]
  -- the call was not registered, so nothing refers to its channel
  have hfresh : ¬ s.Answered n ∧ ∀ m, role m ≠ .holder n := by
    have hnot : ¬ (s.Answered n ∨ ∃ m, role m = .holder n) := by
      intro hc
      have hcalled := h.called n hc
      rw [hn] at hcalled
      exact hcalled
    exact ⟨fun hc => hnot (.inl hc), fun m hm => hnot (.inr ⟨m, hm⟩)⟩
  have hmem : ∀ j e', (j, e') ∈ t.pending → (j = i ∧ e' = e) ∨ (j, e') ∈ s.pending := by
    intro j e' he'
    rw [hp] at he'
    rcases List.mem_cons.mp he' with heq | hold
    · cases heq
      exact .inl ⟨rfl, rfl⟩
    · exact .inr (mem_filter_ne.mp hold).1
  constructor
  · intro m j hj
    rw [hids] at hj
    rw [hid]
    exact h.allocated m j hj
  · intro m m' j hj hj'
    rw [hids] at hj hj'
    exact h.distinct m m' j hj hj'
  · rw [hp, List.map_cons, List.nodup_cons]
    constructor
    · intro hi
      obtain ⟨⟨j, e'⟩, he', rfl⟩ := List.mem_map.mp hi
      exact (mem_filter_ne.mp he').2 rfl
    · exact h.keys.sublist (List.filter_sublist.map _)
  · intro j e' he'
    rcases hmem j e' he' with ⟨rfl, rfl⟩ | hold
    · rw [hsender, Function.update_self]
      exact ⟨rfl, trivial⟩
    · obtain ⟨hj, hcalled⟩ := h.entries j e' hold
      have hne : e'.sender ≠ n := by
        intro heq
        rw [heq, hn] at hcalled
        exact hcalled
      rw [Function.update_of_ne hne]
      exact ⟨hj, hcalled⟩
  · rw [hr]
    exact h.once
  · intro j e' he'
    rw [answered_congr hr]
    rcases hmem j e' he' with ⟨rfl, rfl⟩ | hold
    · rw [hsender]
      exact hfresh.1
    · exact h.unanswered j e' hold
  · intro m c hc
    have hold := (hholds m c).mp hc
    obtain ⟨hnot, hothers⟩ := h.held m c hold
    rw [answered_congr hr]
    refine ⟨hnot, ?_⟩
    intro j e' he' heq
    rcases hmem j e' he' with ⟨rfl, rfl⟩ | hmem'
    · rw [hsender] at heq
      subst heq
      exact hfresh.2 m hold
    · exact hothers j e' hmem' heq
  · intro m m' c hc hc'
    exact h.heldOnce m m' c ((hholds m c).mp hc) ((hholds m' c).mp hc')
  · intro m j w hw
    rw [answered_congr hr]
    simp only [hholds]
    by_cases hm : m = n
    · subst hm
      rw [Function.update_self] at hw
      cases hw
      refine .inl ⟨e, ?_, hsender⟩
      rw [hp]
      exact List.mem_cons_self ..
    · rw [Function.update_of_ne hm] at hw
      rcases h.channel m j w hw with ⟨e', he', hm'⟩ | hrest
      · refine .inl ⟨e', ?_, hm'⟩
        have hne : j ≠ i := by
          rintro rfl
          exact hm (h.distinct m n j (by rw [hw]; rfl) (by rw [hn]; rfl))
        rw [hp]
        exact List.mem_cons_of_mem _ (mem_filter_ne.mpr ⟨he', hne⟩)
      · exact .inr hrest
  · intro c hc
    rw [answered_congr hr] at hc
    simp only [hholds] at hc
    by_cases hm : c = n
    · subst hm
      rw [Function.update_self]
      trivial
    · rw [Function.update_of_ne hm]
      exact h.called c hc

theorem remove (h : Tracked s role) {i : Nat} (hn : role n = r)
    (hp : t.pending = s.pending.filter (·.1 ≠ i)) (hr : t.replies = s.replies)
    (hid : t.nextId = s.nextId) (hapart : r'.id? = none) (hcalled : r.Called → r'.Called)
    (hnot : ∀ c, r ≠ .holder c) (hself : ∀ j, r.id? = some j → j = i)
    (hlost : ∀ m w, role m = .registered i w → r' = .holder m)
    (hnew : ∀ c, r' = .holder c → ¬ s.Answered c ∧ (∀ m, role m ≠ .holder c) ∧
      (∀ j e, (j, e) ∈ s.pending → e.sender = c → j = i) ∧ (role c).Called) :
    Tracked t (Function.update role n r') := by
  have hholds : ∀ m c, Function.update role n r' m = .holder c →
      role m = .holder c ∨ m = n ∧ r' = .holder c := by
    intro m c hc
    by_cases hm : m = n
    · subst hm
      rw [Function.update_self] at hc
      exact .inr ⟨rfl, hc⟩
    · rw [Function.update_of_ne hm] at hc
      exact .inl hc
  have hkept : ∀ m c, role m = .holder c → Function.update role n r' m = .holder c := by
    intro m c hc
    have hm : m ≠ n := by
      rintro rfl
      exact hnot c (hn.symm.trans hc)
    rwa [Function.update_of_ne hm]
  have hids : ∀ m j, (Function.update role n r' m).id? = some j → m ≠ n ∧ (role m).id? = some j := by
    intro m j hj
    by_cases hm : m = n
    · subst hm
      rw [Function.update_self, hapart] at hj
      cases hj
    · rw [Function.update_of_ne hm] at hj
      exact ⟨hm, hj⟩
  have hother : ∀ j e, (j, e) ∈ t.pending → (j, e) ∈ s.pending ∧ j ≠ i ∧ e.sender ≠ n := by
    intro j e he
    rw [hp] at he
    obtain ⟨hmem, hne⟩ := mem_filter_ne.mp he
    refine ⟨hmem, hne, ?_⟩
    rintro rfl
    have hj := (h.entries j e hmem).1
    rw [hn] at hj
    exact hne (hself j hj)
  constructor
  · intro m j hj
    rw [hid]
    exact h.allocated m j (hids m j hj).2
  · intro m m' j hj hj'
    exact h.distinct m m' j (hids m j hj).2 (hids m' j hj').2
  · rw [hp]
    exact h.keys.sublist (List.filter_sublist.map _)
  · intro j e he
    obtain ⟨hmem, -, hne⟩ := hother j e he
    rw [Function.update_of_ne hne]
    exact h.entries j e hmem
  · rw [hr]
    exact h.once
  · intro j e he
    rw [answered_congr hr]
    exact h.unanswered j e (hother j e he).1
  · intro m c hc
    rw [answered_congr hr]
    rcases hholds m c hc with hold | ⟨-, hc'⟩
    · obtain ⟨hanswered, hentries⟩ := h.held m c hold
      exact ⟨hanswered, fun j e he => hentries j e (hother j e he).1⟩
    · obtain ⟨hanswered, -, hentries, -⟩ := hnew c hc'
      refine ⟨hanswered, ?_⟩
      intro j e he heq
      obtain ⟨hmem, hne, -⟩ := hother j e he
      exact hne (hentries j e hmem heq)
  · intro m m' c hc hc'
    rcases hholds m c hc with hold | ⟨rfl, hnew'⟩
    · rcases hholds m' c hc' with hold' | ⟨-, hnew'⟩
      · exact h.heldOnce m m' c hold hold'
      · exact absurd hold ((hnew c hnew').2.1 m)
    · rcases hholds m' c hc' with hold' | ⟨rfl, -⟩
      · exact absurd hold' ((hnew c hnew').2.1 m')
      · rfl
  · intro m j w hw
    rw [answered_congr hr]
    have hm : m ≠ n := by
      rintro rfl
      rw [Function.update_self] at hw
      rw [hw] at hapart
      cases hapart
    rw [Function.update_of_ne hm] at hw
    by_cases hj : j = i
    · subst hj
      refine .inr (.inr ⟨n, ?_⟩)
      rw [Function.update_self]
      exact hlost m w hw
    · rcases h.channel m j w hw with ⟨e, he, hsender⟩ | hanswered | ⟨m', hm'⟩
      · refine .inl ⟨e, ?_, hsender⟩
        rw [hp]
        exact mem_filter_ne.mpr ⟨he, hj⟩
      · exact .inr (.inl hanswered)
      · exact .inr (.inr ⟨m', hkept m' m hm'⟩)
  · intro c hc
    rw [answered_congr hr] at hc
    have hold : (role c).Called := by
      rcases hc with hanswered | ⟨m, hm⟩
      · exact h.called c (.inl hanswered)
      · rcases hholds m c hm with hheld | ⟨-, hc'⟩
        · exact h.called c (.inr ⟨m, hheld⟩)
        · exact (hnew c hc').2.2.2
    by_cases hm : c = n
    · subst hm
      rw [hn] at hold
      rw [Function.update_self]
      exact hcalled hold
    · rwa [Function.update_of_ne hm]

theorem unregister (h : Tracked s role) {i : Nat} (hn : role n = .leaving i)
    (hp : t.pending = s.pending.filter (·.1 ≠ i)) (hr : t.replies = s.replies)
    (hid : t.nextId = s.nextId) : Tracked t (Function.update role n .past) := by
  refine h.remove hn hp hr hid rfl (fun _ => trivial) nofun ?_ ?_ nofun
  · intro j hj
    exact (Option.some.inj hj).symm
  · intro m w hm
    have hmn := h.distinct m n i (by rw [hm]; rfl) (by rw [hn]; rfl)
    rw [hmn, hn] at hm
    cases hm

theorem take (h : Tracked s role) {i : Nat} {e : PendingEntry} (hn : role n = .apart)
    (he : (i, e) ∈ s.pending) (hp : t.pending = s.pending.filter (·.1 ≠ i))
    (hr : t.replies = s.replies) (hid : t.nextId = s.nextId) :
    Tracked t (Function.update role n (.holder e.sender)) := by
  refine h.remove hn hp hr hid rfl nofun nofun nofun ?_ ?_
  · intro m w hm
    have hmn := h.distinct m e.sender i (by rw [hm]; rfl) (h.entries i e he).1
    rw [hmn]
  · intro c hc
    cases hc
    refine ⟨h.unanswered i e he, ?_, ?_, (h.entries i e he).2⟩
    · intro m hm
      exact (h.held m _ hm).2 i e he rfl
    · intro j e' he' heq
      exact h.entry_unique he' he heq

theorem reply (h : Tracked s role) {c : Nat} {x : Reply} (hn : role n = .holder c)
    (hp : t.pending = s.pending) (hr : t.replies = s.replies ++ [(c, x)])
    (hid : t.nextId = s.nextId) : Tracked t (Function.update role n .apart) := by
  have hanswered : ∀ d, t.Answered d ↔ s.Answered d ∨ d = c := by
    intro d
    unfold SessionInner.Answered
    rw [hr]
    simp
  have hholds : ∀ m d, Function.update role n .apart m = .holder d → role m = .holder d ∧ d ≠ c := by
    intro m d hd
    by_cases hm : m = n
    · subst hm
      rw [Function.update_self] at hd
      cases hd
    · rw [Function.update_of_ne hm] at hd
      refine ⟨hd, ?_⟩
      rintro rfl
      exact hm (h.heldOnce m n d hd hn)
  have hids : ∀ m j, (Function.update role n .apart m).id? = some j → (role m).id? = some j := by
    intro m j hj
    by_cases hm : m = n
    · subst hm
      rw [Function.update_self] at hj
      cases hj
    · rwa [Function.update_of_ne hm] at hj
  constructor
  · intro m j hj
    rw [hid]
    exact h.allocated m j (hids m j hj)
  · intro m m' j hj hj'
    exact h.distinct m m' j (hids m j hj) (hids m' j hj')
  · rw [hp]
    exact h.keys
  · intro j e he
    rw [hp] at he
    obtain ⟨hj, hcalled⟩ := h.entries j e he
    have hm : e.sender ≠ n := by
      intro heq
      rw [heq, hn] at hj
      cases hj
    rw [Function.update_of_ne hm]
    exact ⟨hj, hcalled⟩
  · rw [hr, List.map_append, List.nodup_append]
    refine ⟨h.once, List.nodup_singleton _, ?_⟩
    intro a ha b hb heq
    rw [List.mem_singleton.mp hb] at heq
    subst heq
    exact (h.held n _ hn).1 ha
  · intro j e he
    rw [hp] at he
    rw [hanswered]
    rintro (hold | heq)
    · exact h.unanswered j e he hold
    · exact (h.held n c hn).2 j e he heq
  · intro m d hd
    obtain ⟨hold, hne⟩ := hholds m d hd
    obtain ⟨hnot, hentries⟩ := h.held m d hold
    rw [hanswered, hp]
    exact ⟨fun hd' => hd'.elim hnot hne, hentries⟩
  · intro m m' d hd hd'
    exact h.heldOnce m m' d (hholds m d hd).1 (hholds m' d hd').1
  · intro m j w hw
    rw [hanswered, hp]
    have hm : m ≠ n := by
      rintro rfl
      rw [Function.update_self] at hw
      cases hw
    rw [Function.update_of_ne hm] at hw
    rcases h.channel m j w hw with hentry | hold | ⟨m', hm'⟩
    · exact .inl hentry
    · exact .inr (.inl (.inl hold))
    · by_cases hm'' : m' = n
      · subst hm''
        rw [hn] at hm'
        cases hm'
        exact .inr (.inl (.inr rfl))
      · refine .inr (.inr ⟨m', ?_⟩)
        rwa [Function.update_of_ne hm'']
  · intro d hd
    rw [hanswered] at hd
    have hold : (role d).Called := by
      rcases hd with (hold | rfl) | ⟨m, hm⟩
      · exact h.called d (.inl hold)
      · exact h.called d (.inr ⟨n, hn⟩)
      · exact h.called d (.inr ⟨m, (hholds m d hm).1⟩)
    by_cases hm : d = n
    · subst hm
      rw [hn] at hold
      cases hold
    · rwa [Function.update_of_ne hm]

theorem drain (h : Tracked s role) {x : Reply} (hp : t.pending = [])
    (hr : t.replies = s.replies ++ s.pending.map (fun p => (p.2.sender, x)))
    (hid : t.nextId = s.nextId) : Tracked t role := by
  have hanswered : ∀ d, t.Answered d ↔ s.Answered d ∨ ∃ i e, (i, e) ∈ s.pending ∧ e.sender = d := by
    intro d
    unfold SessionInner.Answered
    rw [hr]
    simp
  constructor
  · rw [hid]
    exact h.allocated
  · exact h.distinct
  · rw [hp]
    exact List.nodup_nil
  · intro i e he
    rw [hp] at he
    cases he
  · rw [hr, List.map_append, List.nodup_append]
    refine ⟨h.once, ?_, ?_⟩
    · rw [List.map_map]
      apply List.Nodup.map_on ?_ (List.Nodup.of_map _ h.keys)
      rintro ⟨i, e⟩ he ⟨j, e'⟩ he' heq
      obtain rfl := h.entry_unique he he' heq
      rw [h.entry_of_key he he']
    · intro a ha b hb heq
      obtain ⟨p, hp', rfl⟩ := List.mem_map.mp hb
      obtain ⟨⟨i, e⟩, he, rfl⟩ := List.mem_map.mp hp'
      subst heq
      exact h.unanswered i e he ha
  · intro i e he
    rw [hp] at he
    cases he
  · intro m c hc
    obtain ⟨hnot, hentries⟩ := h.held m c hc
    rw [hanswered, hp]
    refine ⟨?_, nofun⟩
    rintro (hold | ⟨i, e, he, heq⟩)
    · exact hnot hold
    · exact hentries i e he heq
  · exact h.heldOnce
  · intro m j w hw
    rw [hanswered]
    rcases h.channel m j w hw with ⟨e, he, hsender⟩ | hold | hheld
    · exact .inr (.inl (.inr ⟨j, e, he, hsender⟩))
    · exact .inr (.inl (.inl hold))
    · exact .inr (.inr hheld)
  · intro d hd
    rw [hanswered] at hd
    rcases hd with (hold | ⟨i, e, he, rfl⟩) | hheld
    · exact h.called d (.inl hold)
    · exact (h.entries i e he).2
    · exact h.called d (.inr hheld)

theorem effect (h : Tracked s role) (hn : role n = r) (he : Effect s t n r r') :
    Tracked t (Function.update role n r') := by
  cases he with
  | keep hsame =>
    refine h.moved hn hsame.pending hsame.replies hsame.nextId.ge (fun i hi => .inl hi) ?_
      (fun c => Iff.rfl) (fun i w hw => ⟨w, hw⟩) id
    rintro i e he rfl
    rw [← hn]
    exact h.entries i e he
  | pass hsame =>
    refine h.moved hn hsame.pending hsame.replies hsame.nextId.ge nofun ?_ (fun c => ⟨nofun, nofun⟩)
      nofun nofun
    rintro i e he rfl
    have hid := (h.entries i e he).1
    rw [hn] at hid
    cases hid
  | accept hsame hstate =>
    refine h.moved hn hsame.pending hsame.replies hsame.nextId.ge (fun i hi => .inl hi) ?_
      (fun c => ⟨nofun, nofun⟩) ?_ (fun _ => trivial)
    · rintro i e he rfl
      have hid := (h.entries i e he).1
      rw [hn] at hid
      exact ⟨hid, trivial⟩
    · intro i w hw
      cases hw
      exact ⟨false, rfl⟩
  | refuse hsame =>
    refine h.moved hn hsame.pending hsame.replies hsame.nextId.ge (fun i hi => .inl hi) ?_
      (fun c => ⟨nofun, nofun⟩) nofun (fun _ => trivial)
    rintro i e he rfl
    have hid := (h.entries i e he).1
    rw [hn] at hid
    exact ⟨hid, trivial⟩
  | answered hsame hanswered =>
    refine h.moved hn hsame.pending hsame.replies hsame.nextId.ge nofun ?_ (fun c => ⟨nofun, nofun⟩)
      nofun (fun _ => trivial)
    rintro i e he rfl
    exact absurd hanswered (h.unanswered i e he)
  | allocate hp hr hlt =>
    refine h.moved hn hp hr hlt.le ?_ ?_ (fun c => ⟨nofun, nofun⟩) nofun nofun
    · intro i hi
      exact .inr ⟨(Option.some.inj hi).symm, hlt⟩
    · rintro i e he rfl
      have hid := (h.entries i e he).1
      rw [hn] at hid
      cases hid
  | register hsender hp hr hid => exact h.register hn hsender hp hr hid
  | unregister hp hr hid => exact h.unregister hn hp hr hid
  | take he hp hr hid => exact h.take hn he hp hr hid
  | reply x hp hr hid => exact h.reply hn hp hr hid
  | drain x hp hr hid =>
    rw [← hn, Function.update_eq_self]
    exact h.drain hp hr hid

end Tracked

/-! ## Reachable sessions -/

/-- After the drain of a terminal transition no entry of the map belongs to a call that waits. -/
def Settled (s : SessionInner) : Prop :=
  s.Drained → ∀ i e, (i, e) ∈ s.pending → s.role e.sender ≠ .registered i true

/-- The invariant of a session. -/
structure Accounted (s : SessionInner) : Prop where
  tracked : Tracked s s.role
  settled : Settled s

theorem role_of_get {s : SessionInner} {n : Nat} {pc : Pc} (h : s.threads[n]? = some pc) :
    s.role n = pc.role := by
  rw [SessionInner.role, h]
  rfl

theorem role_set {s t : SessionInner} {n : Nat} {pc : Pc} (pc' : Pc) (h : s.threads[n]? = some pc)
    (ht : t.threads = s.threads.set n pc') : t.role = Function.update s.role n pc'.role := by
  funext m
  unfold SessionInner.role
  rw [ht, List.getElem?_set]
  by_cases hm : n = m
  · subst hm
    obtain ⟨hlt, -⟩ := List.getElem?_eq_some_iff.mp h
    rw [if_pos rfl, if_pos hlt, Function.update_self]
    rfl
  · rw [if_neg hm, Function.update_of_ne (Ne.symm hm)]

theorem role_spawn {s : SessionInner} {pc : Pc} (h : pc.role = .apart) :
    (s.spawn pc).role = s.role := by
  funext m
  unfold SessionInner.role SessionInner.spawn
  rw [List.getElem?_append]
  split_ifs with hm
  · rfl
  · rw [List.getElem?_eq_none (Nat.le_of_not_lt hm)]
    cases hk : m - s.threads.length with
    | zero => exact h
    | succ k => rfl

theorem Tracked.congr {s t : SessionInner} {role : Nat → Role} (h : Tracked s role)
    (hsame : Untouched s t) : Tracked t role := by
  rw [← Function.update_eq_self 0 role]
  exact h.effect rfl (.keep hsame)

theorem accounted_new (config : ProcessHostConfig) : Accounted (SessionInner.new config) := by
  refine ⟨.initial rfl rfl fun m => rfl, ?_⟩
  rintro - i e he
  cases he

theorem Accounted.quiet {s t : SessionInner} (h : Accounted s) (hsame : Untouched s t)
    (hrole : t.role = s.role) (hdrained : t.Drained → s.Drained) : Accounted t := by
  refine ⟨?_, ?_⟩
  · rw [hrole]
    exact h.tracked.congr hsame
  · intro ht i e he
    rw [hsame.pending] at he
    rw [hrole]
    exact h.settled (hdrained ht) i e he

theorem drained_of_spawn {s : SessionInner} {pc : Pc} (h : (s.spawn pc).Drained) : s.Drained :=
  ⟨h.1, fun pc' hpc' => h.2 pc' (List.mem_append_left _ hpc')⟩

theorem Accounted.spawn {s : SessionInner} {pc : Pc} (h : Accounted s) (hpc : pc.role = .apart) :
    Accounted (s.spawn pc) :=
  h.quiet ⟨rfl, rfl, rfl⟩ (role_spawn hpc) drained_of_spawn

/-- After a step of thread `n`, an entry of a waiting call was there before and its call was waiting
already, or the state is not terminal. -/
theorem settled_effect {s t : SessionInner} {role : Nat → Role} {n : Nat} {r r' : Role}
    (hn : role n = r) (he : Effect s t n r r') {i : Nat} {e : PendingEntry}
    (hmem : (i, e) ∈ t.pending) (hwaits : Function.update role n r' e.sender = .registered i true) :
    ((i, e) ∈ s.pending ∧ role e.sender = .registered i true) ∨ ¬ s.Terminal := by
  have hother : r' ≠ .registered i true → e.sender ≠ n ∧ role e.sender = .registered i true := by
    intro hr'
    have hne : e.sender ≠ n := by
      intro heq
      rw [heq, Function.update_self] at hwaits
      exact hr' hwaits
    rw [Function.update_of_ne hne] at hwaits
    exact ⟨hne, hwaits⟩
  cases he with
  | keep hsame =>
    rw [← hn, Function.update_eq_self] at hwaits
    rw [hsame.pending] at hmem
    exact .inl ⟨hmem, hwaits⟩
  | pass hsame =>
    rw [hsame.pending] at hmem
    exact .inl ⟨hmem, (hother nofun).2⟩
  | accept hsame hstate => exact .inr hstate
  | refuse hsame =>
    rw [hsame.pending] at hmem
    exact .inl ⟨hmem, (hother nofun).2⟩
  | answered hsame hanswered =>
    rw [hsame.pending] at hmem
    exact .inl ⟨hmem, (hother nofun).2⟩
  | allocate hp hr hlt =>
    rw [hp] at hmem
    exact .inl ⟨hmem, (hother nofun).2⟩
  | register hsender hp hr hid =>
    rw [hp] at hmem
    obtain ⟨hne, hrole⟩ := hother (by simp)
    rcases List.mem_cons.mp hmem with heq | hold
    · cases heq
      exact absurd hsender hne
    · exact .inl ⟨(Tracked.mem_filter_ne.mp hold).1, hrole⟩
  | unregister hp hr hid =>
    rw [hp] at hmem
    exact .inl ⟨(Tracked.mem_filter_ne.mp hmem).1, (hother nofun).2⟩
  | take he' hp hr hid =>
    rw [hp] at hmem
    exact .inl ⟨(Tracked.mem_filter_ne.mp hmem).1, (hother nofun).2⟩
  | reply x hp hr hid =>
    rw [hp] at hmem
    exact .inl ⟨hmem, (hother nofun).2⟩
  | drain x hp hr hid =>
    rw [hp] at hmem
    cases hmem

theorem drained_of_settles {s t : SessionInner} {n : Nat} {pc pc' : Pc} (hn : s.threads[n]? = some pc)
    (hsettles : Settles s t pc.draining pc'.draining)
    (hdrained : SessionInner.Drained { t with threads := s.threads.set n pc' }) :
    t.pending = [] ∨ s.Drained := by
  rcases hsettles with hempty | ⟨hterminal, hdraining⟩
  · exact .inl hempty
  · right
    obtain ⟨hlt, -⟩ := List.getElem?_eq_some_iff.mp hn
    have hpc' : pc'.draining = false := hdrained.2 pc' (List.mem_set hlt pc')
    have hpc : pc.draining = false := by
      by_contra hne
      have hbad := hdraining (by simpa using hne)
      rw [hpc'] at hbad
      cases hbad
    refine ⟨(hterminal hdrained.1).resolve_right (by simp [hpc']), ?_⟩
    intro p hp
    rcases mem_or_of_mem_set pc' hn hp with rfl | hmem
    · exact hpc
    · exact hdrained.2 p hmem

theorem Accounted.run {s t : SessionInner} {n : Nat} {pc pc' : Pc} (h : Accounted s)
    (hn : s.threads[n]? = some pc) (he : Effect s t n pc.role pc'.role)
    (hsettles : Settles s t pc.draining pc'.draining) :
    Accounted { t with threads := s.threads.set n pc' } := by
  have hrole : SessionInner.role { t with threads := s.threads.set n pc' } =
      Function.update s.role n pc'.role := role_set pc' hn rfl
  refine ⟨?_, ?_⟩
  · rw [hrole]
    exact (h.tracked.effect (role_of_get hn) he).congr ⟨rfl, rfl, rfl⟩
  · intro hdrained i e hmem hwaits
    rw [hrole] at hwaits
    have hmem' : (i, e) ∈ t.pending := hmem
    rcases drained_of_settles hn hsettles hdrained with hempty | hs
    · rw [hempty] at hmem'
      cases hmem'
    · rcases settled_effect (role_of_get hn) he hmem' hwaits with ⟨hold, hrole'⟩ | hstate
      · exact h.settled hs i e hold hrole'
      · exact hstate hs.1

theorem accounted_step {s t : SessionInner} {l : Label} (h : Accounted s) (hs : step s l = some t) :
    Accounted t := by
  cases l with
  | call op =>
    cases hs
    exact h.spawn rfl
  | dispatch message =>
    cases hs
    exact h.spawn rfl
  | terminate terminal =>
    cases hs
    exact h.spawn rfl
  | negotiate limits =>
    cases hs
    exact h.spawn rfl
  | run n spurious =>
    obtain ⟨pc, hn, hs⟩ := Option.bind_eq_some_iff.mp hs
    obtain ⟨⟨s', pc'⟩, hthread, hs⟩ := Option.bind_eq_some_iff.mp hs
    cases hs
    obtain ⟨he, hsettles⟩ := stepThread_effect hthread
    exact h.run hn he hsettles
  | drop n =>
    obtain ⟨pc, hn, hs⟩ := Option.bind_eq_some_iff.mp hs
    obtain ⟨pc', hdrop, hs⟩ := Option.bind_eq_some_iff.mp hs
    cases hs
    cases pc with
    | call op pc =>
      obtain ⟨q, hq, hpc'⟩ := Option.map_eq_some_iff.mp hdrop
      cases hpc'
      exact h.run hn (dropCall_effect hq) (.calm id)
    | dispatch message pc => cases hdrop
    | terminate terminal pc => cases hdrop
    | negotiate limits pc => cases hdrop
  | receive =>
    cases hs
    exact h.quiet ⟨rfl, rfl, rfl⟩ rfl id
  | stopWriter =>
    cases hs
    exact h.quiet ⟨rfl, rfl, rfl⟩ rfl id

theorem accounted_reach {config : ProcessHostConfig} {s : SessionInner}
    (h : Reach step anyStep (SessionInner.new config) s) : Accounted s :=
  h.invariant (accounted_new config) fun _ _ _ hinv _ hs => accounted_step hinv hs

/-! ## No stranded request -/

/-- Call `n` waits to be enqueued or for its response. -/
def SessionInner.Waits (s : SessionInner) (n : Nat) : Prop :=
  ∃ op id, s.threads[n]? = some (.call op (.enqueue id)) ∨ s.threads[n]? = some (.call op (.await id))

/-- A `dispatch_response` took the entry of call `n` out of the map and is about to answer it. -/
def SessionInner.InHand (s : SessionInner) (n : Nat) : Prop :=
  ∃ (m : Nat) (pc : Pc), s.threads[m]? = some pc ∧ pc.holds = some n

theorem holds_of_role {pc : Pc} {c : Nat} (h : pc.role = .holder c) : pc.holds = some c := by
  have hholds : ∀ o : Option Nat, (o.map Role.holder).getD .apart = .holder c → o = some c := by
    intro o ho
    cases o with
    | none => cases ho
    | some d =>
      cases ho
      rfl
  cases pc with
  | call op pc =>
    have hrole : pc.role = .holder c := h
    unfold CallPc.role at hrole
    split at hrole <;> cases hrole
  | dispatch message pc => exact hholds _ h
  | terminate terminal pc => exact hholds _ h
  | negotiate limits pc => exact hholds _ h

theorem role_holder {s : SessionInner} {m c : Nat} (h : s.role m = .holder c) :
    ∃ pc, s.threads[m]? = some pc ∧ pc.holds = some c := by
  unfold SessionInner.role at h
  cases hm : s.threads[m]? with
  | none =>
    rw [hm] at h
    cases h
  | some pc =>
    rw [hm] at h
    exact ⟨pc, rfl, holds_of_role h⟩

theorem not_ended_of_called {s : SessionInner} {n i : Nat} (hid : (s.role n).id? = some i)
    (hcalled : (s.role n).Called) :
    ∃ op pc, s.threads[n]? = some (.call op pc) ∧ ∀ result, pc ≠ .ended result := by
  have hholder : ∀ o : Option Nat, ((o.map Role.holder).getD .apart).id? ≠ some i := by
    intro o ho
    cases o <;> cases ho
  unfold SessionInner.role at hid hcalled
  cases hn : s.threads[n]? with
  | none =>
    rw [hn] at hid
    cases hid
  | some pc =>
    rw [hn] at hid hcalled
    cases pc with
    | call op pc =>
      refine ⟨op, pc, rfl, ?_⟩
      rintro result rfl
      cases hid
    | dispatch message pc => exact absurd hid (hholder _)
    | terminate terminal pc => cases hid
    | negotiate limits pc => cases hid

/-- For every interleaving: once a terminal transition has finished draining, a call that waits has
been answered, or a `dispatch_response` holds its entry and sends next, and a call between its
registration and its second check of the state fails that check; no response channel is sent on twice;
and when all calls have ended nothing is pending. -/
theorem no_stranded_request (config : ProcessHostConfig) (s : SessionInner)
    (h : Reach step anyStep (SessionInner.new config) s) :
    (s.Drained → ∀ n, s.Waits n → s.Answered n ∨ s.InHand n) ∧
      (s.Drained → ∀ (n : Nat) (op : Operation) (id : Nat),
        s.threads[n]? = some (.call op (.recheck id)) → s.state ≠ op.required) ∧
      (s.replies.map Prod.fst).Nodup ∧
      ((∀ (n : Nat) (op : Operation) (pc : CallPc),
          s.threads[n]? = some (.call op pc) → ∃ result, pc = .ended result) →
        s.pending = []) := by
  have hinv := accounted_reach h
  refine ⟨?_, ?_, hinv.tracked.once, ?_⟩
  · intro hdrained n hwaits
    have hrole : ∃ i, s.role n = .registered i true := by
      obtain ⟨op, id, hn | hn⟩ := hwaits <;> exact ⟨id, role_of_get hn⟩
    obtain ⟨i, hi⟩ := hrole
    rcases hinv.tracked.channel n i true hi with ⟨e, he, rfl⟩ | hanswered | ⟨m, hm⟩
    · exact absurd hi (hinv.settled hdrained i e he)
    · exact .inl hanswered
    · exact .inr ⟨m, role_holder hm⟩
  · intro hdrained n op id hn hstate
    exact required_not_terminal hstate hdrained.1
  · intro hended
    by_contra hne
    obtain ⟨⟨i, e⟩, he⟩ := List.exists_mem_of_ne_nil _ hne
    obtain ⟨hid, hcalled⟩ := hinv.tracked.entries i e he
    obtain ⟨op, pc, hn, hlive⟩ := not_ended_of_called hid hcalled
    obtain ⟨result, hpc⟩ := hended _ op pc hn
    exact hlive result hpc

/-- A handshake whose answer is dispatched while the session fails: the entry is out of the map when
the failure drains it. -/
def overtakenRun : List Label :=
  Label.call .handshake :: List.replicate 10 (Label.run 0 false) ++
    Label.dispatch (.HelloAck 1 1 1 1 1 ⟨1, 1, 1, 1, 1⟩) :: List.replicate 2 (Label.run 1 false) ++
    Label.terminate (.failed ⟨.TransportClosed, ""⟩) :: List.replicate 5 (Label.run 2 false)

def overtaken : SessionInner := (run step (.new .default) overtakenRun).getD (.new .default)

theorem overtaken_reached : Reach step anyStep (SessionInner.new .default) overtaken := by
  have hrun : run step (SessionInner.new .default) overtakenRun = some overtaken := rfl
  exact reach_of_run hrun

theorem overtaken_waits : overtaken.Waits 0 := ⟨.handshake, 1, .inr rfl⟩

theorem no_stranded_request_overtaken :
    (overtaken.Answered 0 ∨ overtaken.InHand 0) ∧ (overtaken.replies.map Prod.fst).Nodup := by
  obtain ⟨hanswer, -, honce, -⟩ := no_stranded_request .default overtaken overtaken_reached
  exact ⟨hanswer (by decide) 0 overtaken_waits, honce⟩

/-- After that run the drain is over, and the handshake waits and has not been answered. -/
theorem waiting_after_drain :
    Reach step anyStep (SessionInner.new .default) overtaken ∧ overtaken.Drained ∧
      overtaken.Waits 0 ∧ ¬ overtaken.Answered 0 :=
  ⟨overtaken_reached, by decide, overtaken_waits, by decide⟩

end Cordis.Session
