import Cordis.Library.History
import Cordis.Proof.Publishing
import Cordis.Runtime.StartBarrier

/-!
# Tasks spawned during an activation wait for its commit

A sender that the record holds was made by the activation that began last. It is taken out to send by the
commit of that activation, or by the cutover to the Fiber that has deferred its commit; an active Fiber
without a barrier has been switched to. So what a task that was spawned earlier waits for is the switch.
-/

namespace Cordis.Barriers

open Machine

variable {s s' : Barriers} {f : FiberId} {c c' : FiberCell} {l : ContextLabel} {w w' : Contexts}

/-! ## The sections -/

structure Section (s : Barriers) (l : ContextLabel) (s' : Barriers) : Prop where
  called : s.called l = true
  step : s.contexts.step l = some s'.contexts
  sender : s'.sender = s.senderAfter l s'.contexts
  taken : s'.taken = s.takenAfter l s'.contexts
  released : s'.released = s.released
  receiver : s'.receiver = s.receiverAfter l

theorem contexts_spec (h : s.step (.contexts l) = some s') : Section s l s' := by
  simp only [step] at h
  split_ifs at h with hcalled
  obtain ⟨w', hstep, rfl⟩ := Option.map_eq_some_iff.mp h
  exact ⟨hcalled, hstep, rfl, rfl, rfl, rfl⟩

/-! ## What is noted -/

/-- Why an event is in the note of a section. -/
inductive Noted (w : Contexts) (l : ContextLabel) (w' : Contexts) : BarrierEvent → Prop
  | began (f : FiberId) (n : Nat) (begins : beginning w' l = some (f, n)) : Noted w l w' (.began f n)
  | failed (f : FiberId) (n : Nat) (c' : FiberCell) (now : w'.runtime.fibers f = some c')
      (e : CordisError) (pc : c'.activations n = some (.failed e)) : Noted w l w' (.failed f n)
  | switched (f : FiberId) (c : FiberCell) (was : w.runtime.fibers f = some c)
      (other : w.runtime.selectors c.plugin ≠ c.generation)
      (now : w'.runtime.selectors c.plugin = c.generation) : Noted w l w' (.switched f (Runtime.gateOf c))
  | closed (f : FiberId) (c c' : FiberCell) (was : w.runtime.fibers f = some c)
      (now : w'.runtime.fibers f = some c') (live : c.retired = false) (retired : c'.retired = true) :
      Noted w l w' (.closed f (Runtime.gateOf c))
  | spawned (i : Nat) (call : ContextCall) (label : l = .spawn i) (was : w.calls i = some call) :
      Noted w l w' (.spawned w.nextTask call.fiber call.gate)

theorem noted_close {x : BarrierEvent} (hx : x ∈ closeNote w.runtime w'.runtime) : Noted w l w' x := by
  obtain ⟨f, -, hf⟩ := List.mem_filterMap.mp hx
  split at hf
  · rename_i c c' hc hc'
    split_ifs at hf with hflip
    cases hf
    exact .closed f c c' hc hc' hflip.1 hflip.2
  · cases hf

theorem noted_switch {x : BarrierEvent} (hx : x ∈ switchNote w.runtime w'.runtime f) : Noted w l w' x := by
  unfold switchNote at hx
  split at hx
  · cases hx
  · rename_i c hc
    split_ifs at hx with hswitch
    · rw [List.mem_singleton.mp hx]
      exact .switched f c hc hswitch.1 hswitch.2
    · cases hx

theorem noted_call {a : FiberLabel} {x : BarrierEvent} (hc' : w'.runtime.fibers f = some c')
    (hx : x ∈ callNote f c' a) : Noted w (.runtime (.fiber f a)) w' x := by
  unfold callNote at hx
  split at hx
  · rename_i n b x
    split_ifs at hx with hselects
    · rw [List.mem_singleton.mp hx]
      refine .began f n ?_
      simp only [beginning, hc', Option.any_some, hselects, if_true]
    · cases hx
  all_goals try contradiction
  all_goals
    split_ifs at hx with hfails
    · rw [List.mem_singleton.mp hx]
      obtain ⟨pc, hpc, hfailed⟩ := (Option.any_eq_true _ _).mp hfails
      cases pc <;> simp only [ActivationPc.fails] at hfailed <;> try contradiction
      exact .failed f _ c' hc' _ hpc
    · cases hx

theorem note_noted {x : BarrierEvent} (hx : x ∈ contextNote w l w') : Noted w l w' x := by
  unfold contextNote at hx
  rcases List.mem_append.mp hx with hclose | hsection
  · exact noted_close hclose
  clear hx
  split at hsection
  · rename_i f a
    rcases List.mem_append.mp hsection with hcall | hswitch
    · split at hcall
      · rename_i c' hc'
        exact noted_call hc' hcall
      · cases hcall
    · exact noted_switch hswitch
  · exact noted_switch hsection
  · rename_i i
    split at hsection
    · rename_i call hcall
      rw [List.mem_singleton.mp hsection]
      exact .spawned i call rfl hcall
    · cases hsection
  · cases hsection

theorem switch_noted {g : FiberId} (hl : committing l = some g) (hc : w.runtime.fibers g = some c)
    (hwas : w.runtime.selectors c.plugin ≠ c.generation) (hnow : w'.runtime.selectors c.plugin = c.generation) :
    .switched g (Runtime.gateOf c) ∈ contextNote w l w' := by
  have hswitch : BarrierEvent.switched g (Runtime.gateOf c) ∈ switchNote w.runtime w'.runtime g := by
    simp [switchNote, hc, hwas, hnow]
  unfold committing at hl
  split at hl
  · cases hl
    exact List.mem_append_right _ (List.mem_append_right _ hswitch)
  · cases hl
    exact List.mem_append_right _ hswitch
  · cases hl

/-! ## The activation that began last -/

theorem latest_append (log new : List BarrierEvent) (f : FiberId) :
    latest (log ++ new) f = (latest new f).or (latest log f) := by
  unfold latest
  rw [List.filterMap_append, List.getLast?_append]

theorem latest_mem {log : List BarrierEvent} {n : Nat} (h : latest log f = some n) : .began f n ∈ log := by
  have hmem := List.mem_of_getLast? h
  obtain ⟨x, hx, hxn⟩ := List.mem_filterMap.mp hmem
  cases x <;> simp only at hxn <;> try contradiction
  split_ifs at hxn with hf
  cases hxn
  rwa [← hf]

theorem latest_none {log : List BarrierEvent} (h : ∀ n, .began f n ∉ log) : latest log f = none := by
  cases hl : latest log f with
  | none => rfl
  | some n => exact absurd (latest_mem hl) (h n)

theorem latest_of_mem {log : List BarrierEvent} {n : Nat} (h : .began f n ∈ log) :
    ∃ m, latest log f = some m := by
  unfold latest
  refine ⟨_, List.getLast?_eq_some_getLast (List.ne_nil_of_mem (a := n) ?_)⟩
  exact List.mem_filterMap.mpr ⟨_, h, if_pos rfl⟩

theorem beginning_of_noted {n : Nat} (h : .began f n ∈ contextNote w l w') : beginning w' l = some (f, n) := by
  cases note_noted h with
  | began _ _ begins => exact begins

theorem noted_of_beginning {n : Nat} (h : beginning w' l = some (f, n)) : .began f n ∈ contextNote w l w' := by
  unfold beginning at h
  split at h
  · rename_i g m a x
    split_ifs at h with hselects
    cases h
    obtain ⟨c', hc', hselects⟩ := (Option.any_eq_true _ _).mp hselects
    refine List.mem_append_right _ (List.mem_append_left _ ?_)
    simp [hc', callNote, hselects]
  · cases h

theorem latest_noted {n : Nat} (h : beginning w' l = some (f, n)) :
    latest (contextNote w l w') f = some n := by
  obtain ⟨m, hm⟩ := latest_of_mem (noted_of_beginning (w := w) h)
  have hsame := beginning_of_noted (latest_mem hm)
  rw [h] at hsame
  cases hsame
  exact hm

/-! ## What a section does to a sender -/

section Leads

variable {b : FiberLabel}

theorem leads_runtime (h : Contexts.Leads w f c l b) (hregister : ∀ entry, b ≠ .register entry)
    (hlease : b ≠ .acquireLease ∧ b ≠ .dropLease) : ∃ a, l = .runtime a ∧ Runtime.Acts w.runtime f c a b := by
  cases h with
  | @runtime a _ _ acts => exact ⟨a, rfl, acts⟩
  | leased => exact absurd rfl hlease.1
  | returned => exact absurd rfl hlease.2
  | effect | registered => exact absurd rfl (hregister _)

theorem leads_committing (h : Contexts.Leads w f c l b) (hl : committing l = some f) :
    (∃ n o g, b = .activationCommit n o g) ∨ (∃ target g, b = .cutover target g) ∨
      b = .reloadSuperseded ∨ ∃ entry, b = .register entry := by
  cases h with
  | runtime ready acts =>
    unfold committing at hl
    split at hl
    · rename_i heq
      cases heq
      cases acts with
      | own answer =>
        have hkind := Runtime.answered_kind answer
        cases b <;> first | contradiction | exact .inl ⟨_, _, _, rfl⟩
    · rename_i heq
      cases heq
      cases acts with
      | superseded => exact .inr (.inr (.inl rfl))
      | cut => exact .inr (.inl ⟨_, _, rfl⟩)
    · cases hl
  | leased | returned => cases hl
  | effect | registered => exact .inr (.inr (.inr ⟨_, rfl⟩))

theorem called_leads (hs : s.called l = true) (hc : s.contexts.runtime.fibers f = some c)
    (h : Contexts.Leads s.contexts f c l b) : c.Called b := by
  have hself : l = .runtime (.fiber f b) → c.Called b := by
    rintro rfl
    simpa only [called, hc, Option.all_some, decide_eq_true_eq] using hs
  cases b with
  | callActivate =>
    obtain ⟨a, rfl, hacts⟩ := leads_runtime h nofun ⟨nofun, nofun⟩
    cases hacts with
    | own answer => exact hself (by rw [Runtime.answered_self answer (.inl rfl)])
  | callDispose w p x =>
    obtain ⟨a, rfl, hacts⟩ := leads_runtime h nofun ⟨nofun, nofun⟩
    cases hacts with
    | own answer => exact hself (by rw [Runtime.answered_self answer (.inr (.inr ⟨w, p, x, rfl⟩))])
    | visited => exact fun _ => rfl
  | _ => trivial

theorem prompt_leads (hs : s.Prompt (.contexts l)) (hc : s.contexts.runtime.fibers f = some c)
    (h : Contexts.Leads s.contexts f c l b) : c.Prompt b := by
  cases b with
  | activationDefer n =>
    obtain ⟨a, rfl, hacts⟩ := leads_runtime h nofun ⟨nofun, nofun⟩
    cases hacts with
    | own answer =>
      obtain rfl := Runtime.answered_self answer (.inr (.inl ⟨n, rfl⟩))
      simpa only [Prompt, prompt, hc, Option.all_some, decide_eq_true_eq] using hs
  | _ => trivial

theorem begin_of_beginning {n : Nat} (hl : w.step l = some w') (hc : w.runtime.fibers f = some c)
    (hc' : w'.runtime.fibers f = some c') (h : beginning w' l = some (f, n)) :
    (∃ a x, c.step (.activationBegin n a x) = some c') ∧
      ∃ pc, c'.activations n = some pc ∧ pc.selects = true := by
  unfold beginning at h
  split at h
  · rename_i g m a x
    split_ifs at h with hselects
    cases h
    simp only [Contexts.step] at hl
    split_ifs at hl
    obtain ⟨rt, hrt, rfl⟩ := Option.map_eq_some_iff.mp hl
    obtain ⟨d, b, d', hd, hanswer, hd', rfl⟩ := Runtime.fiberStep_spec hrt
    rw [hc] at hd
    cases hd
    have hself : (Runtime.fiberEffect f c d' b (w.runtime.setFiber f d')).fibers f = some d' := by
      rw [(Runtime.fiberEffect_fibers _ _ hd').1]
      exact Function.update_self ..
    obtain rfl : d' = c' := by simpa [hself] using hc'
    simp only [Runtime.answered] at hanswer
    cases hanswer
    rw [hself] at hselects
    exact ⟨⟨_, _, hd'⟩, (Option.any_eq_true _ _).mp hselects⟩
  · cases h

end Leads

/-! ## The invariant -/

/-- What is known of a Fiber. -/
structure Held (s : Barriers) (log : List BarrierEvent) (f : FiberId) (c : FiberCell) : Prop where
  governed : c.Governed
  flag : (s.sender f).isSome = c.inner.activation
  holder : ∀ n, s.sender f = some n → ∀ m pc, c.activations m = some pc → pc.working = true → m = n
  latest : ∀ n, s.sender f = some n → latest log f = some n
  active : ∀ n, s.sender f = some n → c.inner.state = .Active ∨ c.inner.state = .Reloading →
    ∃ pc, c.activations n = some pc ∧ pc.succeeded = true
  untaken : ∀ n, s.sender f = some n → s.taken f n = false
  taken : ∀ n, s.taken f n = true → ∃ pc, c.activations n = some pc ∧ pc.succeeded = true
  began : ∀ n, .began f n ∈ log → ∃ pc, c.activations n = some pc ∧ pc.early = false
  failed : ∀ n, .failed f n ∈ log → ∃ pc, c.activations n = some pc ∧ pc.failing = true
  published : c.inner.state = .Active ∨ c.inner.state = .Reloading → c.inner.activation = false →
    .switched f (Runtime.gateOf c) ∈ log
  shut : .closed f (Runtime.gateOf c) ∈ log → c.retired = true

/-- What a section does to the sender of a Fiber. -/
inductive Sends (s : Barriers) (l : ContextLabel) (s' : Barriers) (f : FiberId) (c c' : FiberCell) : Prop
  | kept (sender : s'.sender f = s.sender f) (activation : c'.inner.activation = c.inner.activation)
      (taken : ∀ n, s'.taken f n = s.taken f n)
      (quiet : ∀ n, .began f n ∉ contextNote s.contexts l s'.contexts)
  | begins (n : Nat) (was : c.activations n = some .locked) (now : c'.activations n = some .selecting)
      (starting : c'.inner.state = .Starting) (activation : c'.inner.activation = true)
      (sender : s'.sender f = some n) (taken : ∀ m, s'.taken f m = s.taken f m)
      (latest : latest (contextNote s.contexts l s'.contexts) f = some n)
  | dropped (sender : s'.sender f = none) (activation : c'.inner.activation = false)
      (taken : ∀ n, s'.taken f n = s.taken f n)
      (quiet : ∀ n, .began f n ∉ contextNote s.contexts l s'.contexts)
  | published (sender : s'.sender f = none) (activation : c'.inner.activation = false)
      (taken : ∀ n, s'.taken f n = true → s.taken f n = true ∨ s.sender f = some n)
      (succeeded : ∀ n, s.sender f = some n → ∃ pc, c'.activations n = some pc ∧ pc.succeeded = true)
      (note : .switched f (Runtime.gateOf c) ∈ contextNote s.contexts l s'.contexts)
      (quiet : ∀ n, .began f n ∉ contextNote s.contexts l s'.contexts)

theorem begin_spec {n : Nat} {a : Bool} {x : Except CordisError GenerationId} {pc : ActivationPc}
    (h : c.step (.activationBegin n a x) = some c') (hpc : c'.activations n = some pc)
    (hselects : pc.selects = true) :
    c.activations n = some .locked ∧ c'.activations n = some .selecting ∧ c'.inner.state = .Starting ∧
      c'.inner.activation = true := by
  obtain ⟨p, hp, h⟩ := Option.bind_eq_some_iff.mp h
  simp only [FiberCell.stepActivation] at h
  split at h <;> try contradiction
  refine ⟨hp, ?_⟩
  split_ifs at h
  · split at h
    · rename_i inner heq
      cases h
      obtain rfl : pc = .selecting := by simpa [FiberCell.setActivation, eq_comm] using hpc
      refine ⟨hpc, ?_⟩
      unfold FiberMutable.beginActivation at heq
      split_ifs at heq
      · split at heq <;> cases heq
        exact ⟨rfl, rfl⟩
      · cases heq
        exact ⟨rfl, rfl⟩
      · cases heq
    · cases h
      obtain rfl : pc = _ := by simpa [FiberCell.setActivation, eq_comm] using hpc
      contradiction
  · cases h
    obtain rfl : pc = _ := by simpa [FiberCell.setActivation, eq_comm] using hpc
    contradiction

section Sender

variable {log : List BarrierEvent}

theorem sender_of_not_beginning (hsec : Section s l s') (hc' : s'.contexts.runtime.fibers f = some c')
    (h : ∀ n, beginning s'.contexts l ≠ some (f, n)) :
    s'.sender f = if c'.inner.activation then s.sender f else none := by
  rw [hsec.sender]
  simp only [senderAfter, hc', Option.any_some]
  split_ifs with hflag
  · split
    · rename_i g n heq
      split_ifs with hg
      · exact absurd (hg ▸ heq) (h n)
      · rfl
    · rfl
  · rfl

theorem taken_kept (hsec : Section s l s')
    (h : committing l ≠ some f ∨ ∀ n, s.sender f = some n → s'.sender f ≠ none) (n : Nat) :
    s'.taken f n = s.taken f n := by
  have hsender : s.senderAfter l s'.contexts f = s'.sender f := by rw [hsec.sender]
  rw [hsec.taken]
  simp only [takenAfter, hsender]
  rcases h with hl | hstays
  · have hfalse : (committing l == some f) = false := by simpa using hl
    simp [hfalse]
  · by_cases hn : s.sender f = some n
    · have hsome := hstays n hn
      cases hs' : s'.sender f with
      | none => exact absurd hs' hsome
      | some m => simp
    · have hfalse : (s.sender f == some n) = false := by simpa using hn
      simp [hfalse]

theorem taken_spec (hsec : Section s l s') {n : Nat} (h : s'.taken f n = true) :
    s.taken f n = true ∨ s.sender f = some n := by
  rw [hsec.taken] at h
  simp only [takenAfter, Bool.or_eq_true, Bool.and_eq_true, beq_iff_eq] at h
  exact h.imp_right fun h => h.1.2

theorem runtime_step {a : RuntimeLabel} (h : w.step (.runtime a) = some w') :
    w.runtime.step a = some w'.runtime := by
  simp only [Contexts.step] at h
  split_ifs at h
  obtain ⟨rt, hrt, rfl⟩ := Option.map_eq_some_iff.mp h
  exact hrt

theorem commit_noted (hw : Contexts.Standing s.contexts) (hsec : Section s l s')
    (hc : s.contexts.runtime.fibers f = some c) (hc' : s'.contexts.runtime.fibers f = some c') {n : Nat}
    {o : Outcome} {g : GenerationId} (hleads : Contexts.Leads s.contexts f c l (.activationCommit n o g))
    (hwas : c.inner.state = .Starting) (hnow : c'.inner.state = .Active) :
    .switched f (Runtime.gateOf c) ∈ contextNote s.contexts l s'.contexts := by
  obtain ⟨r, rfl, hacts⟩ := leads_runtime hleads nofun ⟨nofun, nofun⟩
  cases hacts with
  | own answer =>
    obtain ⟨o', g', rfl⟩ := Runtime.commit_label answer
    obtain ⟨hfree, hnamed, -⟩ := Runtime.commit_publishes (runtime_step hsec.step) hc hc' answer hwas hnow
    refine switch_noted rfl hc ?_ hnamed
    rw [hfree]
    exact (Nat.ne_of_gt (hw.numbered.fibers f c hc).1).symm

theorem cutover_noted (hw : Contexts.Standing s.contexts) (hsec : Section s l s')
    (hc : s.contexts.runtime.fibers f = some c) (hc' : s'.contexts.runtime.fibers f = some c')
    {target : ScopeId} {g : GenerationId} (hleads : Contexts.Leads s.contexts f c l (.cutover target g))
    (hwas : c.inner.staged = true) (hnow : c'.inner.staged = false) :
    .switched f (Runtime.gateOf c) ∈ contextNote s.contexts l s'.contexts := by
  obtain ⟨r, rfl, hacts⟩ := leads_runtime hleads nofun ⟨nofun, nofun⟩
  obtain ⟨old, staging, rfl⟩ := Runtime.acts_cutover hacts
  obtain ⟨hother, hnamed, -⟩ :=
    Runtime.cutover_publishes hw.topology (runtime_step hsec.step) hc hc' hwas hnow
  exact switch_noted rfl hc hother hnamed

theorem step_sends (hw : Contexts.Standing s.contexts) (hsec : Section s l s') (hheld : Held s log f c)
    (hc : s.contexts.runtime.fibers f = some c) (hc' : s'.contexts.runtime.fibers f = some c')
    (hcase : c' = c ∨ ∃ b, c.step b = some c' ∧ Contexts.Leads s.contexts f c l b) : Sends s l s' f c c' := by
  by_cases hbegin : ∃ n, beginning s'.contexts l = some (f, n)
  · obtain ⟨n, hbegin⟩ := hbegin
    obtain ⟨⟨a, x, hstep⟩, pc, hpc, hselects⟩ := begin_of_beginning hsec.step hc hc' hbegin
    obtain ⟨hwas, hnow, hstarting, hflag⟩ := begin_spec hstep hpc hselects
    have hsender : s'.sender f = some n := by
      rw [hsec.sender]
      simp [senderAfter, hc', hflag, hbegin]
    refine .begins n hwas hnow hstarting hflag hsender (taken_kept hsec (.inr fun _ _ => ?_))
      (latest_noted hbegin)
    rw [hsender]
    nofun
  have hnone := not_exists.mp hbegin
  have hquiet : ∀ n, .began f n ∉ contextNote s.contexts l s'.contexts :=
    fun n hn => hnone n (beginning_of_noted hn)
  have hsender := sender_of_not_beginning hsec hc' hnone
  -- a sender that stays where it was
  have hkept : c'.inner.activation = c.inner.activation → Sends s l s' f c c' := by
    intro hsame
    have hstays : s'.sender f = s.sender f := by
      rw [hsender, hsame, ← hheld.flag]
      cases s.sender f <;> rfl
    refine .kept hstays hsame (taken_kept hsec (.inr fun n hn => ?_)) hquiet
    rw [hstays, hn]
    nofun
  rcases hcase with rfl | ⟨b, hb, hleads⟩
  · exact hkept rfl
  have hdropped : c'.inner.activation = false → committing l ≠ some f → Sends s l s' f c c' := by
    intro hflag hl
    refine .dropped ?_ hflag (taken_kept hsec (.inl hl)) hquiet
    rw [hsender, hflag]
    rfl
  cases step_barred hb with
  | kept activation => exact hkept activation
  | made n label was now =>
    obtain ⟨a, x, rfl⟩ := label
    obtain ⟨r, rfl, hacts⟩ := leads_runtime hleads nofun ⟨nofun, nofun⟩
    cases hacts with
    | own answer =>
      obtain ⟨a', x', rfl⟩ := Runtime.begin_label answer
      refine absurd ?_ (hnone n)
      simp [beginning, hc', now, ActivationPc.selects]
  | asked w a label claim activation =>
    rcases activation with hsame | ⟨-, hflag⟩
    · exact hkept hsame
    refine hdropped hflag fun hl => ?_
    rcases leads_committing hleads hl with ⟨_, _, _, rfl⟩ | ⟨_, _, rfl⟩ | rfl | ⟨_, rfl⟩ <;> cases label
  | failed n e label was state hflag =>
    refine hdropped hflag fun hl => ?_
    rcases leads_committing hleads hl with ⟨_, _, _, rfl⟩ | ⟨_, _, rfl⟩ | rfl | ⟨_, rfl⟩ <;> cases label
  | committed n o g label was now starting state hflag =>
    subst label
    refine .published ?_ hflag (fun m hm => taken_spec hsec hm) (fun m hm => ?_)
      (commit_noted hw hsec hc hc' hleads starting state) hquiet
    · rw [hsender, hflag]
      rfl
    · obtain rfl := hheld.holder m hm n _ was rfl
      exact ⟨_, now, rfl⟩
  | cutover target g label active activations hflag staged =>
    cases hwas : c.inner.activation with
    | false => exact hkept (hflag.trans hwas.symm)
    | true =>
      subst label
      refine .published ?_ hflag (fun m hm => taken_spec hsec hm) (fun m hm => ?_)
        (cutover_noted hw hsec hc hc' hleads (hheld.governed.withheld.staged (.inl active) hwas) staged) hquiet
      · rw [hsender, hflag]
        rfl
      · rw [activations]
        exact hheld.active m hm (.inl active)

theorem active_gate {b : FiberLabel} (h : c.step b = some c')
    (hnow : c'.inner.state = .Active ∨ c'.inner.state = .Reloading) : Runtime.gateOf c' = Runtime.gateOf c := by
  cases step_gated h with
  | kept generation | closed _ _ _ _ generation | superseded _ generation =>
    exact Runtime.gateOf_eq (step_same h).plugin generation
  | renewed _ _ _ _ _ _ starting => simp [starting] at hnow

theorem retired_stays (hcase : c' = c ∨ ∃ b, c.step b = some c' ∧ Contexts.Leads w f c l b)
    (hfresh : c.generation < w.runtime.nextGeneration c.plugin)
    (hgate : Runtime.gateOf c' = Runtime.gateOf c) (hretired : c.retired = true) : c'.retired = true := by
  rcases hcase with rfl | ⟨b, hb, hleads⟩
  · exact hretired
  cases step_gated hb with
  | kept _ retired => exact retired.trans hretired
  | closed _ _ _ _ _ retired | superseded _ _ retired => exact retired
  | renewed n g label _ _ generation =>
    subst label
    obtain ⟨-, hg⟩ := Contexts.leads_begin hleads
    have hsame := Runtime.generation_of_gateOf hgate
    rw [← hsame, generation, hg] at hfresh
    exact absurd hfresh (Nat.lt_irrefl _)

theorem held_step (hw : Contexts.Standing s.contexts) (hsec : Section s l s')
    (hprompt : s.Prompt (.contexts l)) (hheld : Held s log f c)
    (hc : s.contexts.runtime.fibers f = some c) (hc' : s'.contexts.runtime.fibers f = some c')
    (hcase : c' = c ∨ ∃ b, c.step b = some c' ∧ Contexts.Leads s.contexts f c l b)
    (hclosed : ∀ g, .closed f g ∈ log → g.generation < s.contexts.runtime.nextGeneration g.plugin) :
    Held s' (log ++ contextNote s.contexts l s'.contexts) f c' := by
  have hsends := step_sends hw hsec hheld hc hc' hcase
  have hissued := hheld.governed.issued
  have hgoverned : c'.Governed := by
    rcases hcase with rfl | ⟨b, hb, hleads⟩
    · exact hheld.governed
    · exact governed_step hheld.governed (called_leads hsec.called hc hleads)
        (prompt_leads hprompt hc hleads) hb
  have hstays := fun P hP n => activation_stays (P := P) hP hissued hcase (n := n)
  refine ⟨hgoverned, ?_, fun n hn m pc hpc hworking => ?_, fun n hn => ?_, fun n hn hactive => ?_,
    fun n hn => ?_, fun n hn => ?_, fun n hn => ?_, fun n hn => ?_, fun hactive hopen => ?_, fun hshut => ?_⟩
  · cases hsends with
    | kept sender activation => rw [sender, activation, hheld.flag]
    | begins _ _ _ _ activation sender => rw [sender, activation, Option.isSome_some]
    | dropped sender activation | published sender activation =>
      rw [sender, activation, Option.isSome_none]
  · have hbefore : (∃ p, c.activations m = some p ∧ p.working = true) ∨
        c.activations m = some .locked ∧ beginning s'.contexts l = some (f, m) := by
      rcases hcase with rfl | ⟨b, hb, hleads⟩
      · exact .inl ⟨pc, hpc, hworking⟩
      · rcases step_working hb hpc hworking with hold | ⟨hlocked, rfl, a, x, rfl⟩
        · exact .inl hold
        · obtain ⟨r, rfl, hacts⟩ := leads_runtime hleads nofun ⟨nofun, nofun⟩
          cases hacts with
          | own answer =>
            obtain ⟨a', x', rfl⟩ := Runtime.begin_label answer
            exact .inr ⟨hlocked, by simp [beginning, hc', hpc, ActivationPc.selects]⟩
    cases hsends with
    | kept sender _ _ quiet =>
      rw [sender] at hn
      rcases hbefore with ⟨p, hp, hold⟩ | ⟨-, hbegin⟩
      · exact hheld.holder n hn m p hp hold
      · exact absurd (noted_of_beginning hbegin) (quiet m)
    | begins k was _ _ _ sender =>
      rw [sender] at hn
      cases hn
      -- both hold the mutex
      have hholder := hheld.governed.sound.exclusive _ _ was rfl
      have hm : c.lifecycle = some (.activation m) := by
        rcases hbefore with ⟨p, hp, hold⟩ | ⟨hlocked, -⟩
        · exact hheld.governed.sound.exclusive m p hp (ActivationPc.held_of_working hold)
        · exact hheld.governed.sound.exclusive m _ hlocked rfl
      rw [hm] at hholder
      simpa using hholder
    | dropped sender | published sender =>
      rw [sender] at hn
      cases hn
  · rw [latest_append]
    cases hsends with
    | kept sender _ _ quiet =>
      rw [latest_none quiet, Option.none_or]
      exact hheld.latest n (sender ▸ hn)
    | begins k _ _ _ _ sender _ latest =>
      rw [latest, ← sender, hn]
      rfl
    | dropped sender | published sender =>
      rw [sender] at hn
      cases hn
  · rcases hcase with rfl | ⟨b, hb, -⟩
    · cases hsends with
      | kept sender => exact hheld.active n (sender ▸ hn) hactive
      | begins _ _ _ starting => simp [starting] at hactive
      | dropped sender | published sender =>
        rw [sender] at hn
        cases hn
    · cases hsends with
      | kept sender activation =>
        rw [sender] at hn
        have hflag : c'.inner.activation = true := by
          rw [activation, ← hheld.flag, hn, Option.isSome_some]
        rcases barred_step hheld.governed hb hactive hflag with ⟨hwas, -⟩ | ⟨m, hdeferring, hcommitted⟩
        · exact hstays _ (fun _ _ h => h.succeeded) n (hheld.active n hn hwas)
        · obtain rfl := hheld.holder n hn m _ hdeferring rfl
          exact ⟨_, hcommitted, rfl⟩
      | begins _ _ _ starting => simp [starting] at hactive
      | dropped sender | published sender =>
        rw [sender] at hn
        cases hn
  · cases hsends with
    | kept sender _ taken =>
      rw [taken]
      exact hheld.untaken n (sender ▸ hn)
    | begins k was _ _ _ sender taken =>
      rw [sender] at hn
      cases hn
      rw [taken]
      by_contra htaken
      obtain ⟨pc, hpc, hsucceeded⟩ := hheld.taken _ (by simpa using htaken)
      rw [was] at hpc
      cases hpc
      contradiction
    | dropped sender | published sender =>
      rw [sender] at hn
      cases hn
  · have hold : s.taken f n = true → ∃ pc, c'.activations n = some pc ∧ pc.succeeded = true :=
      fun h => hstays _ (fun _ _ h => h.succeeded) n (hheld.taken n h)
    cases hsends with
    | kept _ _ taken | dropped _ _ taken => exact hold (taken n ▸ hn)
    | begins _ _ _ _ _ _ taken => exact hold (taken n ▸ hn)
    | published _ _ taken succeeded => exact (taken n hn).elim hold (succeeded n)
  · rcases List.mem_append.mp hn with hold | hnew
    · obtain ⟨pc, hpc, hearly⟩ := hheld.began n hold
      obtain ⟨q, hq, hstill⟩ := hstays (fun pc => !pc.early)
        (fun _ _ h hp => by simpa using h.begun (by simpa using hp)) n ⟨pc, hpc, by simpa using hearly⟩
      exact ⟨q, hq, by simpa using hstill⟩
    · cases hsends with
      | kept _ _ _ quiet | dropped _ _ _ quiet | published _ _ _ _ _ quiet => exact absurd hnew (quiet n)
      | begins k _ now _ _ _ _ latest =>
        have hk := beginning_of_noted (latest_mem latest)
        rw [beginning_of_noted hnew] at hk
        cases hk
        exact ⟨_, now, rfl⟩
  · rcases List.mem_append.mp hn with hold | hnew
    · exact hstays _ (fun _ _ h => h.failing) n (hheld.failed n hold)
    · cases note_noted hnew with
      | failed _ _ d now e pc =>
        rw [hc'] at now
        cases now
        exact ⟨_, pc, rfl⟩
  · rcases hcase with rfl | ⟨b, hb, hleads⟩
    · exact List.mem_append_left _ (hheld.published hactive hopen)
    have hgate := active_gate hb hactive
    rw [hgate]
    rcases opened_step hheld.governed (prompt_leads hprompt hc hleads) hb hactive hopen with
      ⟨hwas, hflag⟩ | ⟨n, o, rfl, hwas, hnow⟩ | ⟨target, g, rfl⟩
    · exact List.mem_append_left _ (hheld.published hwas hflag)
    · exact List.mem_append_right _ (commit_noted hw hsec hc hc' hleads hwas hnow)
    · have hstate : c.inner.state = .Active := by
        simp only [FiberCell.step] at hb
        split_ifs at hb with hif
        exact hif.1
      cases hflag : c.inner.activation with
      | false => exact List.mem_append_left _ (hheld.published (.inl hstate) hflag)
      | true =>
        refine List.mem_append_right _ (cutover_noted hw hsec hc hc' hleads
          (hheld.governed.withheld.staged (.inl hstate) hflag) (cutover_staged hb).1)
  · rcases List.mem_append.mp hshut with hold | hnew
    · rcases Contexts.gate_cases hcase with hsame | ⟨-, hnew, -⟩
      · rw [hsame] at hold
        exact retired_stays hcase (hw.numbered.fibers f c hc).2 hsame (hheld.shut hold)
      · have hlt := hclosed _ hold
        have hbelow : c'.generation < s.contexts.runtime.nextGeneration c'.plugin := hlt
        rw [hnew] at hbelow
        exact absurd hbelow (Nat.lt_irrefl _)
    · generalize hg : Runtime.gateOf c' = g at hnew
      cases note_noted hnew with
      | closed _ d d' was now live retired =>
        rw [hc'] at now
        cases now
        exact retired

theorem gate_of_not_beginning (hc' : w'.runtime.fibers f = some c')
    (hcase : c' = c ∨ ∃ b, c.step b = some c' ∧ Contexts.Leads w f c l b)
    (h : ∀ n, beginning w' l ≠ some (f, n)) : Runtime.gateOf c' = Runtime.gateOf c := by
  rcases hcase with rfl | ⟨b, hb, hleads⟩
  · rfl
  cases step_gated hb with
  | kept generation | closed _ _ _ _ generation | superseded _ generation =>
    exact Runtime.gateOf_eq (step_same hb).plugin generation
  | renewed n g label waiting _ _ starting =>
    subst label
    obtain ⟨r, rfl, hacts⟩ := leads_runtime hleads nofun ⟨nofun, nofun⟩
    cases hacts with
    | own answer =>
      obtain ⟨a, x, rfl⟩ := Runtime.begin_label answer
      refine absurd ?_ (h n)
      have hnow : c'.activations n = some .selecting := by
        obtain ⟨p, hp, hstep⟩ := Option.bind_eq_some_iff.mp hb
        simp only [FiberCell.stepActivation] at hstep
        split at hstep <;> try contradiction
        simp only [if_true, FiberMutable.beginActivation] at hstep
        split_ifs at hstep <;> cases hstep
        · exact Function.update_self ..
        · exact Function.update_self ..
        · simp [waiting] at starting
      simp [beginning, hc', hnow, ActivationPc.selects]

/-! ## Tasks -/

/-- What a live task waits for. -/
inductive Awaits (s : Barriers) (log : List BarrierEvent) (f : FiberId) (g : Gate) (n : Nat) : Prop
  | held (sender : s.sender f = some n) (c : FiberCell) (was : s.contexts.runtime.fibers f = some c)
      (gate : Runtime.gateOf c = g)
  /-- The sender is gone; if it was taken to send the selector has been switched. -/
  | gone (sender : s.sender f ≠ some n) (switched : s.taken f n = true → .switched f g ∈ log)

theorem awaits_sent (hw : Contexts.Standing s.contexts) (hsec : Section s l s') (hheld : Held s log f c)
    (hc : s.contexts.runtime.fibers f = some c) (hc' : s'.contexts.runtime.fibers f = some c')
    (hcase : c' = c ∨ ∃ b, c.step b = some c' ∧ Contexts.Leads s.contexts f c l b) {n : Nat}
    (hn : s.sender f = some n) (hbegan : .began f n ∈ log) :
    Awaits s' (log ++ contextNote s.contexts l s'.contexts) f (Runtime.gateOf c) n := by
  have huntaken := hheld.untaken n hn
  have hgone : s'.sender f ≠ some n → s'.taken f n = s.taken f n →
      Awaits s' (log ++ contextNote s.contexts l s'.contexts) f (Runtime.gateOf c) n := by
    intro hsender htaken
    refine .gone hsender fun htrue => ?_
    rw [htaken, huntaken] at htrue
    contradiction
  cases step_sends hw hsec hheld hc hc' hcase with
  | kept sender _ _ quiet =>
    refine .held (sender.trans hn) c' hc' (gate_of_not_beginning hc' hcase fun m hm => ?_)
    exact quiet m (noted_of_beginning hm)
  | begins k was _ _ _ sender taken =>
    refine hgone (fun heq => ?_) (taken n)
    rw [sender] at heq
    cases heq
    obtain ⟨pc, hpc, hearly⟩ := hheld.began n hbegan
    rw [was] at hpc
    cases hpc
    contradiction
  | dropped sender _ taken =>
    refine hgone ?_ (taken n)
    rw [sender]
    nofun
  | published sender _ _ _ note =>
    refine .gone ?_ fun _ => List.mem_append_right _ note
    rw [sender]
    nofun

theorem awaits_step (hw : Contexts.Standing s.contexts) (hsec : Section s l s') (hheld : Held s log f c)
    (hc : s.contexts.runtime.fibers f = some c) (hc' : s'.contexts.runtime.fibers f = some c')
    (hcase : c' = c ∨ ∃ b, c.step b = some c' ∧ Contexts.Leads s.contexts f c l b) {n : Nat} {g : Gate}
    (h : Awaits s log f g n) (hbegan : .began f n ∈ log) :
    Awaits s' (log ++ contextNote s.contexts l s'.contexts) f g n := by
  cases h with
  | held sender d was gate =>
    rw [hc] at was
    cases was
    rw [← gate]
    exact awaits_sent hw hsec hheld hc hc' hcase sender hbegan
  | gone sender switched =>
    have hgone : s'.sender f ≠ some n → s'.taken f n = s.taken f n →
        Awaits s' (log ++ contextNote s.contexts l s'.contexts) f g n :=
      fun hsender htaken => .gone hsender fun htrue => List.mem_append_left _ (switched (htaken ▸ htrue))
    cases step_sends hw hsec hheld hc hc' hcase with
    | kept same _ taken => exact hgone (same ▸ sender) (taken n)
    | begins k was _ _ _ now taken =>
      refine hgone (fun heq => ?_) (taken n)
      rw [now] at heq
      cases heq
      obtain ⟨pc, hpc, hearly⟩ := hheld.began n hbegan
      rw [was] at hpc
      cases hpc
      contradiction
    | dropped now _ taken =>
      refine hgone ?_ (taken n)
      rw [now]
      nofun
    | published now _ taken =>
      refine .gone ?_ fun htrue => List.mem_append_left _ (switched ((taken n htrue).resolve_right sender))
      rw [now]
      nofun

end Sender

theorem step_tasks (h : w.step l = some w') :
    w.nextTask ≤ w'.nextTask ∧ ∀ id t, w'.tasks id = some t → w.tasks id = some t ∨
      ∃ i call, l = .spawn i ∧ id = w.nextTask ∧ id < w'.nextTask ∧ w.calls i = some call ∧
        call.stage = .leased ∧ t = ⟨call.fiber, call.gate⟩ ∧
        w.runtime.step (.fiber call.fiber (.register (.task w.nextTask))) = some w'.runtime := by
  have hsame : w'.nextTask = w.nextTask ∧ w'.tasks = w.tasks →
      w.nextTask ≤ w'.nextTask ∧ ∀ id t, w'.tasks id = some t → w.tasks id = some t ∨
        ∃ i call, l = .spawn i ∧ id = w.nextTask ∧ id < w'.nextTask ∧ w.calls i = some call ∧
          call.stage = .leased ∧ t = ⟨call.fiber, call.gate⟩ ∧
          w.runtime.step (.fiber call.fiber (.register (.task w.nextTask))) = some w'.runtime :=
    fun ⟨hnext, htasks⟩ => ⟨hnext.ge, fun id t ht => .inl (htasks ▸ ht)⟩
  cases l <;> simp only [Contexts.step] at h
  case runtime =>
    split_ifs at h
    obtain ⟨rt, -, rfl⟩ := Option.map_eq_some_iff.mp h
    exact hsame ⟨rfl, rfl⟩
  case capture =>
    split at h <;> try contradiction
    split_ifs at h
    cases h
    exact hsame ⟨rfl, rfl⟩
  case lease =>
    obtain ⟨call, -, h⟩ := Option.bind_eq_some_iff.mp h
    split at h <;> try contradiction
    split_ifs at h
    · split at h
      · rename_i heq
        cases h
        obtain ⟨-, hw₁⟩ := Contexts.fiberSection_spec heq
        rw [hw₁] at hsame ⊢
        exact hsame ⟨rfl, rfl⟩
      · cases h
        exact hsame ⟨rfl, rfl⟩
    · cases h
      exact hsame ⟨rfl, rfl⟩
  case check =>
    obtain ⟨call, -, h⟩ := Option.bind_eq_some_iff.mp h
    split_ifs at h
    cases h
    exact hsame ⟨rfl, rfl⟩
  case insert =>
    split at h <;> try contradiction
    obtain ⟨rt, -, rfl⟩ := Option.map_eq_some_iff.mp h
    exact hsame ⟨rfl, rfl⟩
  case spawn i =>
    obtain ⟨⟨w₁, call⟩, h₁, rfl⟩ := Option.map_eq_some_iff.mp h
    obtain ⟨hcall, hstage, hstep, hw₁⟩ := Contexts.register_spec h₁
    have hnext : w₁.nextTask = w.nextTask := by rw [hw₁]
    have htasks : w₁.tasks = w.tasks := by rw [hw₁]
    refine ⟨by simp [hnext], fun id t ht => ?_⟩
    by_cases hid : id = w.nextTask
    · subst hid
      refine .inr ⟨i, call, rfl, rfl, by simp [hnext], hcall, hstage, ?_, hstep⟩
      simpa [hnext, eq_comm] using ht
    · refine .inl ?_
      rw [← htasks]
      simpa [hnext, hid] using ht
  case effect | on | handle | intercept | createScope =>
    obtain ⟨⟨w₁, call⟩, h₁, rfl⟩ := Option.map_eq_some_iff.mp h
    obtain ⟨-, -, -, hw₁⟩ := Contexts.register_spec h₁
    refine hsame ⟨?_, ?_⟩ <;> simp only <;> rw [hw₁]
  case finish =>
    split at h <;> try contradiction
    split_ifs at h
    · cases h
      exact hsame ⟨rfl, rfl⟩
    · obtain ⟨w₁, h₁, rfl⟩ := Option.map_eq_some_iff.mp h
      obtain ⟨-, hw₁⟩ := Contexts.fiberSection_spec h₁
      refine hsame ⟨?_, ?_⟩ <;> simp only [Contexts.setCall] <;> rw [hw₁]
  case taskEnded id =>
    split_ifs at h
    cases h
    refine ⟨le_rfl, fun id' t ht => .inl ?_⟩
    by_cases hid : id' = id
    · simp [hid] at ht
    · simpa [hid] using ht

/-! ## Every run -/

/-- What a task that is polled has waited for. -/
def Awaited (s : Barriers) (before : List BarrierEvent) (x : BarrierEvent) : Prop :=
  ∀ id, x = .executed id → ∃ early f g late, before = early ++ .spawned id f g :: late ∧
    .switched f g ∈ before ∧ (.switched f g ∈ early ∨ ∃ n, latest early f = some n ∧ s.taken f n = true)

/-- A selector is not switched to a generation that was closed. -/
def Unclosed (before : List BarrierEvent) (x : BarrierEvent) : Prop :=
  ∀ f g, x = .switched f g → .closed f g ∉ before

/-- What the log has of a live task. -/
structure Spawned (s : Barriers) (log : List BarrierEvent) (id : Nat) (t : OwnedTask) : Prop where
  known : id < s.contexts.nextTask
  spawned : ∃ early late, log = early ++ .spawned id t.owner t.gate :: late ∧
    (s.receiver id = none → .switched t.owner t.gate ∈ early) ∧
    ∀ n, s.receiver id = some n → latest early t.owner = some n ∧ Awaits s log t.owner t.gate n

structure Screened (s : Barriers) (log : List BarrierEvent) : Prop where
  standing : Contexts.Standing s.contexts
  held : ∀ f c, s.contexts.runtime.fibers f = some c → Held s log f c
  absent : ∀ f, s.contexts.runtime.fibers f = none → s.sender f = none ∧ (∀ n, s.taken f n = false) ∧
    (∀ n, .began f n ∉ log ∧ .failed f n ∉ log) ∧ ∀ g, .closed f g ∉ log
  closed : ∀ f g, .closed f g ∈ log → g.generation < s.contexts.runtime.nextGeneration g.plugin
  order : Justified Unclosed log
  tasks : ∀ id t, s.contexts.tasks id = some t → Spawned s log id t
  released : ∀ f n, s.released f n = true → s.taken f n = true
  executed : Justified (Awaited s) log

section Run

variable {log : List BarrierEvent}

theorem screened_new : Screened .new [] where
  standing := Contexts.standing_new
  held := fun f c hc => by cases hc
  absent := fun f _ => ⟨rfl, fun _ => rfl, fun _ => ⟨nofun, nofun⟩, nofun⟩
  closed := nofun
  order := justified_nil
  tasks := fun id t ht => by cases ht
  released := fun f n h => by cases h
  executed := justified_nil

theorem beginning_known {n : Nat} (h : beginning w' l = some (f, n)) :
    ∃ c' pc, w'.runtime.fibers f = some c' ∧ c'.activations n = some pc := by
  unfold beginning at h
  split at h
  · split_ifs at h with hselects
    cases h
    obtain ⟨c', hc', hselects⟩ := (Option.any_eq_true _ _).mp hselects
    obtain ⟨pc, hpc, -⟩ := (Option.any_eq_true _ _).mp hselects
    exact ⟨c', pc, hc', hpc⟩
  · cases h

theorem held_created (hsec : Section s l s') (hscreened : Screened s log)
    (hnone : s.contexts.runtime.fibers f = none) (hc' : s'.contexts.runtime.fibers f = some c')
    (hcreated : ∃ id plugin scope descriptor generation staged,
      c' = .created id plugin scope descriptor generation staged) :
    Held s' (log ++ contextNote s.contexts l s'.contexts) f c' := by
  obtain ⟨id, plugin, scope, descriptor, generation, staged, rfl⟩ := hcreated
  obtain ⟨hsender, htaken, hevents, hunclosed⟩ := hscreened.absent f hnone
  have hsender' : s'.sender f = none := by
    rw [hsec.sender]
    unfold senderAfter
    rw [hc']
    rfl
  have huntaken : ∀ n, s'.taken f n ≠ true := by
    intro n hn
    rcases taken_spec hsec hn with h | h
    · rw [htaken n] at h
      contradiction
    · rw [hsender] at h
      contradiction
  refine ⟨governed_created .., by rw [hsender']; rfl, ?_, ?_, ?_, ?_, fun n hn => absurd hn (huntaken n),
    fun n hn => ?_, fun n hn => ?_, fun hactive => ?_, fun hclosed => ?_⟩
  · intro n hn
    rw [hsender'] at hn
    cases hn
  · intro n hn
    rw [hsender'] at hn
    cases hn
  · intro n hn
    rw [hsender'] at hn
    cases hn
  · intro n hn
    rw [hsender'] at hn
    cases hn
  · rcases List.mem_append.mp hn with hold | hnew
    · exact absurd hold (hevents n).1
    · obtain ⟨d, pc, hd, hpc⟩ := beginning_known (beginning_of_noted hnew)
      rw [hc'] at hd
      cases hd
      cases hpc
  · rcases List.mem_append.mp hn with hold | hnew
    · exact absurd hold (hevents n).2
    · cases note_noted hnew with
      | failed _ _ d now e pc =>
        rw [hc'] at now
        cases now
        cases pc
  · simp [FiberCell.created, FiberMutable.created] at hactive
  · rcases List.mem_append.mp hclosed with hold | hnew
    · exact absurd hold (hunclosed _)
    · generalize Runtime.gateOf _ = g at hnew
      cases note_noted hnew with
      | closed _ d d' was =>
        rw [hnone] at was
        cases was

theorem switched_open (hw : Contexts.Standing w) (h : w.step l = some w') (hc : w.runtime.fibers f = some c)
    (hc' : w'.runtime.fibers f = some c') (hwas : w.runtime.selectors c.plugin ≠ c.generation)
    (hnow : w'.runtime.selectors c.plugin = c.generation) : c.retired = false ∧ c'.retired = false := by
  rcases Contexts.step_runs h with hsame | ⟨rt₀, a, hruns⟩
  · rw [hsame] at hnow
    exact absurd hnow hwas
  have htopology := Runtime.topology_tame hw.topology hruns.frees.tame
  have hnumbered := hruns.frees.numbered hw.numbered
  have hc₀ : rt₀.fibers f = some c := by rw [hruns.fibers, hc]
  have hwas₀ : rt₀.selectors c.plugin ≠ c.generation := by
    rwa [show rt₀.selectors = w.runtime.selectors by rw [hruns.frees.rest]]
  have hlive := Runtime.switched_live htopology hnumbered hruns.step hc₀ hwas₀ hnow
  refine ⟨hlive, ?_⟩
  by_contra hretired
  exact Runtime.retires_clears htopology hnumbered hruns.step hc₀ hc' hlive (by simpa using hretired) hnow

theorem unclosed_step (hscreened : Screened s log) (hsec : Section s l s') :
    Justified Unclosed (log ++ contextNote s.contexts l s'.contexts) := by
  have hw := hscreened.standing
  refine hscreened.order.extend fun before x after heq f g hx hclosed => ?_
  have hmem : .switched f g ∈ contextNote s.contexts l s'.contexts := by
    rw [heq, hx]
    exact List.mem_append_right _ List.mem_cons_self
  cases note_noted hmem with
  | switched _ c was other now =>
    obtain ⟨c', hc'⟩ := Contexts.step_forward hw.topology hsec.step was
    obtain ⟨hlive, hlive'⟩ := switched_open hw hsec.step was hc' other now
    rcases List.mem_append.mp hclosed with hold | hnew
    · rw [(hscreened.held f c was).shut hold] at hlive
      contradiction
    · have hnoted : .closed f (Runtime.gateOf c) ∈ contextNote s.contexts l s'.contexts := by
        rw [heq]
        exact List.mem_append_left _ hnew
      generalize Runtime.gateOf c = g at hnoted
      cases note_noted hnoted with
      | closed _ d d' hd hd' _ retired =>
        rw [hc'] at hd'
        cases hd'
        rw [hlive'] at retired
        contradiction

theorem closeNote_latest : latest (closeNote w.runtime w'.runtime) f = none :=
  latest_none fun n hn => by cases noted_close (l := .capture 0) hn with
    | began _ _ begins => cases begins

theorem spawned_kept (hscreened : Screened s log) (hsec : Section s l s') {id : Nat} {t : OwnedTask}
    (ht : s.contexts.tasks id = some t) : Spawned s' (log ++ contextNote s.contexts l s'.contexts) id t := by
  obtain ⟨hknown, early, late, hlog, hfree, hwaits⟩ := hscreened.tasks id t ht
  have hreceiver : s'.receiver id = s.receiver id := by
    rw [hsec.receiver]
    unfold receiverAfter
    split
    · exact Function.update_of_ne (Nat.ne_of_lt hknown) ..
    · rfl
  refine ⟨Nat.lt_of_lt_of_le hknown (step_tasks hsec.step).1, early,
    late ++ contextNote s.contexts l s'.contexts, by rw [hlog]; simp, hreceiver ▸ hfree, fun n hn => ?_⟩
  obtain ⟨hlatest, hawaits⟩ := hwaits n (hreceiver ▸ hn)
  have hbegan : .began t.owner n ∈ log := by
    rw [hlog]
    exact List.mem_append_left _ (latest_mem hlatest)
  refine ⟨hlatest, ?_⟩
  cases hc : s.contexts.runtime.fibers t.owner with
  | none => exact absurd hbegan ((hscreened.absent _ hc).2.2.1 n).1
  | some c =>
    obtain ⟨c', hc', hcase⟩ := Contexts.step_leads hscreened.standing.topology hsec.step hc
    exact awaits_step hscreened.standing hsec (hscreened.held _ c hc) hc hc' hcase hawaits hbegan

/-- A task that has just been spawned waits for the activation that began last, unless the selector has been
switched. -/
theorem spawned_new (hscreened : Screened s log) {i : Nat} (hsec : Section s (.spawn i) s') {call : ContextCall}
    (hcall : s.contexts.calls i = some call) (hstage : call.stage = .leased)
    (hnext : s.contexts.nextTask < s'.contexts.nextTask)
    (hstep : s.contexts.runtime.step (.fiber call.fiber (.register (.task s.contexts.nextTask))) =
      some s'.contexts.runtime) :
    Spawned s' (log ++ contextNote s.contexts (.spawn i) s'.contexts) s.contexts.nextTask
      ⟨call.fiber, call.gate⟩ := by
  have hw := hscreened.standing
  obtain ⟨c, hc, hgate⟩ := hw.current i call hcall (by rw [hstage]; nofun)
  have hheld := hscreened.held _ c hc
  obtain ⟨c', hc', hcase⟩ := Contexts.step_leads hw.topology hsec.step hc
  have hreceiver : s'.receiver s.contexts.nextTask = s.sender call.fiber := by
    rw [hsec.receiver]
    simp [receiverAfter, hcall]
  have hnote : contextNote s.contexts (.spawn i) s'.contexts =
      closeNote s.contexts.runtime s'.contexts.runtime ++
        [.spawned s.contexts.nextTask call.fiber call.gate] := by
    simp [contextNote, hcall]
  refine ⟨hnext, log ++ closeNote s.contexts.runtime s'.contexts.runtime, [], by rw [hnote]; simp,
    fun hnone => List.mem_append_left _ ?_, fun n hn => ⟨?_, ?_⟩⟩
  · -- without a barrier the Fiber is active, and has been switched to
    have hopen : c.inner.activation = false := by
      rw [← hheld.flag, ← hreceiver, hnone]
      rfl
    obtain ⟨d, b, d', hd, hanswer, hd', -⟩ := Runtime.fiberStep_spec hstep
    rw [hc] at hd
    cases hd
    have hactive : c.inner.state = .Active := by
      simp only [Runtime.answered] at hanswer
      split_ifs at hanswer
      cases hanswer
      simp only [FiberCell.step] at hd'
      split_ifs at hd' with haccepts
      rcases of_decide_eq_true haccepts with ⟨hstarting, -⟩ | hactive
      · rw [hheld.governed.withheld.starting hstarting] at hopen
        contradiction
      · exact hactive
    show .switched call.fiber call.gate ∈ log
    rw [← hgate]
    exact hheld.published (.inl hactive) hopen
  · rw [latest_append, closeNote_latest, Option.none_or]
    exact hheld.latest n (hreceiver ▸ hn)
  · have hsender := hreceiver ▸ hn
    show Awaits s' _ call.fiber call.gate n
    rw [← hgate]
    exact awaits_sent hw hsec hheld hc hc' hcase hsender (latest_mem (hheld.latest n hsender))

theorem screened_contexts (hscreened : Screened s log) (hprompt : s.Prompt (.contexts l))
    (hsec : Section s l s') : Screened s' (log ++ contextNote s.contexts l s'.contexts) := by
  have hw := hscreened.standing
  have htaken : ∀ f n, s.taken f n = true → s'.taken f n = true := by
    intro f n hn
    rw [hsec.taken]
    simp [takenAfter, hn]
  refine ⟨Contexts.standing_step hw hsec.step, fun f c' hc' => ?_, fun f hnone => ?_, fun f g hclosed => ?_,
    unclosed_step hscreened hsec, fun id t ht => ?_, fun f n hn => ?_, ?_⟩
  · cases hc : s.contexts.runtime.fibers f with
    | none =>
      refine held_created hsec hscreened hc hc' ?_
      cases Contexts.step_turns hw.topology hsec.step hc' with
      | kept was =>
        rw [hc] at was
        cases was
      | stepped _ _ _ _ _ was =>
        rw [hc] at was
        cases was
      | created _ plugin scope descriptor generation staged now =>
        exact ⟨f, plugin, scope, descriptor, generation, staged, now⟩
    | some c =>
      obtain ⟨d, hd, hcase⟩ := Contexts.step_leads hw.topology hsec.step hc
      rw [hc'] at hd
      cases hd
      exact held_step hw hsec hprompt (hscreened.held f c hc) hc hc' hcase (hscreened.closed f)
  · have hc : s.contexts.runtime.fibers f = none := by
      cases hc : s.contexts.runtime.fibers f with
      | none => rfl
      | some c =>
        obtain ⟨c', hc'⟩ := Contexts.step_forward hw.topology hsec.step hc
        rw [hnone] at hc'
        cases hc'
    obtain ⟨hsender, huntaken, hevents, hunclosed⟩ := hscreened.absent f hc
    refine ⟨?_, fun n => ?_, fun n => ⟨fun hn => ?_, fun hn => ?_⟩, fun g hg => ?_⟩
    · rw [hsec.sender]
      unfold senderAfter
      rw [hnone]
      rfl
    · by_contra hn
      rcases taken_spec hsec (by simpa using hn) with h | h
      · rw [huntaken n] at h
        contradiction
      · rw [hsender] at h
        contradiction
    · rcases List.mem_append.mp hn with hold | hnew
      · exact (hevents n).1 hold
      · obtain ⟨c', pc, hc', -⟩ := beginning_known (beginning_of_noted hnew)
        rw [hnone] at hc'
        cases hc'
    · rcases List.mem_append.mp hn with hold | hnew
      · exact (hevents n).2 hold
      · cases note_noted hnew with
        | failed _ _ c' now =>
          rw [hnone] at now
          cases now
    · rcases List.mem_append.mp hg with hold | hnew
      · exact hunclosed g hold
      · cases note_noted hnew with
        | closed _ c c' was =>
          rw [hc] at was
          cases was
  · rcases List.mem_append.mp hclosed with hold | hnew
    · exact Nat.lt_of_lt_of_le (hscreened.closed f g hold)
        (Contexts.step_generations hw.topology hsec.step g.plugin)
    · cases note_noted hnew with
      | closed _ c c' was =>
        exact Nat.lt_of_lt_of_le (hw.numbered.fibers f c was).2
          (Contexts.step_generations hw.topology hsec.step c.plugin)
  · rcases (step_tasks hsec.step).2 id t ht with hold | ⟨i, call, rfl, rfl, hnext, hcall, hstage, rfl, hstep⟩
    · exact spawned_kept hscreened hsec hold
    · exact spawned_new hscreened hsec hcall hstage hnext hstep
  · rw [hsec.released] at hn
    exact htaken f n (hscreened.released f n hn)
  · refine (hscreened.executed.mono fun before x hx task heq => ?_).extend fun before x after heq task hid => ?_
    · obtain ⟨early, f, g, late, hbefore, hswitched, hready⟩ := hx task heq
      refine ⟨early, f, g, late, hbefore, hswitched, hready.imp id ?_⟩
      rintro ⟨n, hn, htrue⟩
      exact ⟨n, hn, htaken f n htrue⟩
    · have hmem : x ∈ contextNote s.contexts l s'.contexts := by
        rw [heq]
        exact List.mem_append_right _ List.mem_cons_self
      rw [hid] at hmem
      cases note_noted hmem

theorem screened_release {f : FiberId} {n : Nat} (hscreened : Screened s log)
    (h : s.step (.release f n) = some s') : Screened s' (log ++ []) := by
  simp only [step] at h
  split_ifs at h with htaken
  cases h
  obtain ⟨standing, held, absent, closed, order, tasks, released, executed⟩ := hscreened
  rw [List.append_nil]
  refine ⟨standing, fun f c hc => ?_, absent, closed, order, fun id t ht => ?_, fun g m hm => ?_, executed⟩
  · obtain ⟨h₁, h₂, h₃, h₄, h₅, h₆, h₇, h₈, h₉, h₁₀, h₁₁⟩ := held f c hc
    exact ⟨h₁, h₂, h₃, h₄, h₅, h₆, h₇, h₈, h₉, h₁₀, h₁₁⟩
  · obtain ⟨hknown, early, late, hlog, hfree, hwaits⟩ := tasks id t ht
    refine ⟨hknown, early, late, hlog, hfree, fun m hm => ?_⟩
    obtain ⟨hlatest, hawaits⟩ := hwaits m hm
    refine ⟨hlatest, ?_⟩
    cases hawaits with
    | held sender c was gate => exact .held sender c was gate
    | gone sender switched => exact .gone sender switched
  · by_cases hg : g = f
    · subst hg
      by_cases hn : m = n
      · exact hn ▸ htaken
      · exact released g m (by simpa [hn] using hm)
    · exact released g m (by simpa [hg] using hm)

theorem screened_execute {id : Nat} (hscreened : Screened s log) (h : s.step (.execute id) = some s') :
    Screened s' (log ++ [.executed id]) := by
  obtain ⟨t, ht, h⟩ := Option.bind_eq_some_iff.mp h
  split_ifs at h with hlet
  cases h
  have hmem : ∀ {x : BarrierEvent}, x ∈ log ++ [.executed id] → x ≠ .executed id → x ∈ log := by
    intro x hx hne
    rcases List.mem_append.mp hx with hold | hnew
    · exact hold
    · exact absurd (List.mem_singleton.mp hnew) hne
  have hlatest : ∀ f, latest (log ++ [.executed id]) f = latest log f := by
    intro f
    rw [latest_append]
    rfl
  refine ⟨hscreened.standing, fun f c hc => ?_, fun f hnone => ?_,
    fun f g hg => hscreened.closed f g (hmem hg nofun), hscreened.order.snoc nofun, fun i u hu => ?_,
    hscreened.released, hscreened.executed.snoc fun j hj => ?_⟩
  · have hheld := hscreened.held f c hc
    exact ⟨hheld.governed, hheld.flag, hheld.holder, fun n hn => (hlatest f).trans (hheld.latest n hn),
      hheld.active, hheld.untaken, hheld.taken, fun n hn => hheld.began n (hmem hn nofun),
      fun n hn => hheld.failed n (hmem hn nofun),
      fun hactive hopen => List.mem_append_left _ (hheld.published hactive hopen),
      fun hg => hheld.shut (hmem hg nofun)⟩
  · obtain ⟨hsender, huntaken, hevents, hunclosed⟩ := hscreened.absent f hnone
    exact ⟨hsender, huntaken, fun n => ⟨fun hn => (hevents n).1 (hmem hn nofun),
      fun hn => (hevents n).2 (hmem hn nofun)⟩, fun g hg => hunclosed g (hmem hg nofun)⟩
  · obtain ⟨hknown, early, late, hlog, hfree, hwaits⟩ := hscreened.tasks i u hu
    refine ⟨hknown, early, late ++ [.executed id], by rw [hlog]; simp, hfree, fun n hn => ?_⟩
    obtain ⟨hfrom, hawaits⟩ := hwaits n hn
    refine ⟨hfrom, ?_⟩
    cases hawaits with
    | held sender c was gate => exact .held sender c was gate
    | gone sender switched => exact .gone sender fun htrue => List.mem_append_left _ (switched htrue)
  · cases hj
    obtain ⟨-, early, late, hlog, hfree, hwaits⟩ := hscreened.tasks id t ht
    cases hreceiver : s.receiver id with
    | none =>
      have hswitched := hfree hreceiver
      refine ⟨early, t.owner, t.gate, late, hlog, ?_, .inl hswitched⟩
      rw [hlog]
      exact List.mem_append_left _ hswitched
    | some n =>
      obtain ⟨hfrom, hawaits⟩ := hwaits n hreceiver
      have htaken : s.taken t.owner n = true := by
        refine hscreened.released t.owner n ?_
        simpa [hreceiver] using hlet
      refine ⟨early, t.owner, t.gate, late, hlog, ?_, .inr ⟨n, hfrom, htaken⟩⟩
      cases hawaits with
      | held sender c was =>
        rw [(hscreened.held _ c was).untaken n sender] at htaken
        contradiction
      | gone _ switched => exact switched htaken

theorem screened_reach {p : Barriers × List BarrierEvent}
    (h : Reach (recording step barrierNote) (fun p => Prompt p.1) (.new, []) p) : Screened p.1 p.2 := by
  induction h with
  | refl => exact screened_new
  | @tail p q a _ hprompt hstep ih =>
    obtain ⟨hs, hlog⟩ := recording_eq_some hstep
    rw [hlog]
    cases a with
    | contexts l => exact screened_contexts ih hprompt (contexts_spec hs)
    | release f n => exact screened_release ih hs
    | execute id => exact screened_execute ih hs

/-- A task is polled after the selector was switched to the generation of its Context. If it was spawned
before that, the activation under way neither failed nor had its gate closed first. -/
def CommitAwaited (log : List BarrierEvent) : Prop :=
  ∀ before id after, log = before ++ .executed id :: after →
    ∃ early f g late, before = early ++ .spawned id f g :: late ∧ .switched f g ∈ before ∧
      (.switched f g ∉ early → (∃ n, latest early f = some n ∧ .failed f n ∉ log) ∧
        ∀ first last, log = first ++ .closed f g :: last → .switched f g ∈ first)

/-- **Tasks that are spawned during an activation wait for its commit.** -/
theorem tasks_await_commit {log : List BarrierEvent}
    (h : Reach (recording step barrierNote) (fun p => Prompt p.1) (.new, []) (s, log)) : CommitAwaited log := by
  have hscreened := screened_reach h
  intro before id after hlog
  obtain ⟨early, f, g, late, hbefore, hswitched, hready⟩ := hscreened.executed before _ after hlog id rfl
  refine ⟨early, f, g, late, hbefore, hswitched, fun hunpublished => ⟨?_, fun first last hclosed => ?_⟩⟩
  · obtain ⟨n, hn, htaken⟩ := hready.resolve_left hunpublished
    refine ⟨n, hn, fun hfailed => ?_⟩
    cases hc : s.contexts.runtime.fibers f with
    | none => exact ((hscreened.absent f hc).2.2.1 n).2 hfailed
    | some c =>
      obtain ⟨pc, hpc, hsucceeded⟩ := (hscreened.held f c hc).taken n htaken
      obtain ⟨q, hq, hfailing⟩ := (hscreened.held f c hc).failed n hfailed
      obtain rfl : pc = q := by simpa [hpc] using hq
      rw [pc.not_failing_of_succeeded hsucceeded] at hfailing
      contradiction
  · have hmem : .switched f g ∈ log := by
      rw [hlog]
      exact List.mem_append_left _ hswitched
    rw [hclosed] at hmem
    rcases List.mem_append.mp hmem with hfirst | hlast
    · exact hfirst
    rcases List.mem_cons.mp hlast with heq | hlast
    · cases heq
    -- a generation that was closed is not switched to any more
    obtain ⟨mid, rest, rfl⟩ := List.append_of_mem hlast
    refine absurd ?_ (hscreened.order (first ++ .closed f g :: mid) (.switched f g) rest (by rw [hclosed]; simp)
      f g rfl)
    exact List.mem_append_right _ List.mem_cons_self

/-! ## Runs -/

def sections (l : List RuntimeLabel) : List BarrierLabel := l.map fun l => .contexts (.runtime l)

/-- A staged Fiber of a reload is being activated, and has called `spawn`, which holds a lease. -/
def spawning : List BarrierLabel :=
  sections (Runtime.installed 0 0 none ⟨[], [], .Restart⟩ false [] ++ Runtime.reloading 0 ++
    [RuntimeLabel.createScope 0 true, .install 1 (some 0) ⟨[], [], .Restart⟩ true,
      .fiber 1 (.installValidate (.ok ())),
      .fiber 1 (.installCheck true), .fiber 1 (.activationLock 0), .fiber 1 (.activationBegin 0 true (.ok 0)),
      .fiber 1 (.activationPoll 0)]) ++
  [BarrierLabel.contexts (.capture 1), .contexts (.lease 0)]

/-- The sections of the activation up to the one that reads `record.staged`. -/
def deferring : List BarrierLabel :=
  sections [.fiber 1 (.activationReturn 0 (.ok ())), .fiber 1 (.activationSeal 0 true),
    .fiber 1 (.activationValidate 0), .fiber 1 (.activationReadStaged 0)]

/-- The Fiber and the generation for which a task was spawned. -/
def spawn? : BarrierEvent → Option (FiberId × Gate)
  | .spawned _ f g => some (f, g)
  | _ => none

/-- The task of a staged Fiber is polled once the cutover has published the Fiber. -/
theorem tasks_await_commit_cutover :
    ∃ s log, Reach (recording step barrierNote) (fun p => Prompt p.1) (.new, []) (s, log) ∧
      .spawned 0 1 ⟨0, 2⟩ ∈ log ∧ .executed 0 ∈ log ∧ CommitAwaited log := by
  have hrun : ((runIf (recording step barrierNote) (fun p => Prompt p.1) (.new, [])
      (spawning ++ [.contexts (.spawn 0), .contexts (.finish 0)] ++ deferring ++
        sections [.fiber 1 (.activationDefer 0), .fiber 1 (.activationRelease 0), .fiber 1 .installActivated,
          .commitReload 0 1 1 0] ++ [.release 1 0, .execute 0])).any fun p =>
        decide (BarrierEvent.spawned 0 1 ⟨0, 2⟩ ∈ p.2 ∧ .executed 0 ∈ p.2)) = true := by
    decide
  obtain ⟨⟨s, log⟩, hp, hrun⟩ := (Option.any_eq_true _ _).mp hrun
  obtain ⟨hspawned, hexecuted⟩ := of_decide_eq_true hrun
  have hreach := reach_of_runIf hp
  exact ⟨s, log, hreach, hspawned, hexecuted, tasks_await_commit hreach⟩

/-- The staging Scope is disposed while the activation goes from reading `record.staged` to writing
`Active`; the Fiber has neither a sender nor a gate then, and a task that is spawned runs at once. -/
theorem spawned_unawaited :
    ¬ ∀ s log, Reach (recording step barrierNote) anyStep (.new, []) (s, log) → CommitAwaited log := by
  intro hall
  have hrun : ((run (recording step barrierNote) (.new, []) (spawning ++ deferring ++
      sections [.disposeScope 1 false, .scope 1 .copy, .scope 1 .visit, .scope 1 .fiberLookup, .scope 1 .fiberCall,
        .fiber 1 (.activationDefer 0)] ++ [.contexts (.spawn 0), .execute 0])).any fun p =>
        decide (BarrierEvent.executed 0 ∈ p.2 ∧ .switched 1 ⟨0, 2⟩ ∉ p.2 ∧
          p.2.filterMap spawn? = [(1, ⟨0, 2⟩)])) = true := by
    decide
  obtain ⟨⟨s, log⟩, hp, hrun⟩ := (Option.any_eq_true _ _).mp hrun
  obtain ⟨hexecuted, hunswitched, hspawned⟩ :
    .executed 0 ∈ log ∧ .switched 1 ⟨0, 2⟩ ∉ log ∧ log.filterMap spawn? = [(1, ⟨0, 2⟩)] := of_decide_eq_true hrun
  obtain ⟨before, after, hlog⟩ := List.append_of_mem hexecuted
  obtain ⟨early, f, g, late, rfl, hswitched, -⟩ := hall s log (reach_of_run hp) before 0 after hlog
  have hmem : (f, g) ∈ log.filterMap spawn? := by
    refine List.mem_filterMap.mpr ⟨.spawned 0 f g, ?_, rfl⟩
    rw [hlog]
    simp
  rw [hspawned] at hmem
  cases List.mem_singleton.mp hmem
  refine hunswitched ?_
  rw [hlog]
  exact List.mem_append_left _ hswitched

end Run

end Cordis.Barriers
