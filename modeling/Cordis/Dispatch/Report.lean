import Cordis.Dispatch.Handover
import Cordis.Library.Threads

/-!
# What a dispatch answers

A dispatch of `Dispatch.EventBus` with its variables: what the handlers have answered, the `first_error` of
`emit`, the `outcomes` of `serial`, and what the dispatch returns to its caller. Values and errors are of any
type; a handler that panics answers an error.
-/

namespace Cordis.EventBus

open Machine Threads

variable {ε α : Type}

/-- `Result<EventOutcome, CordisError>`. -/
abbrev Answer (ε α : Type) := Except ε (Option α)

def Answer.outcome : Answer ε α → Outcome
  | .error _ => .error
  | .ok none => .none
  | .ok (some _) => .some

def Answer.error? : Answer ε α → Option ε
  | .error e => some e
  | .ok _ => none

/-- What the five return: nothing, all outcomes, or one. -/
inductive Report (α : Type)
  | unit
  | outcomes (outcomes : List (Option α))
  | outcome (outcome : Option α)
  deriving DecidableEq

/-- `collect` into a `Result`: the first error counts. -/
def collect : List (Answer ε α) → Except ε (List (Option α))
  | [] => .ok []
  | .error error :: _ => .error error
  | .ok outcome :: rest => (collect rest).map (outcome :: ·)

/-- A dispatch with its variables. -/
structure Dispatch (ε α : Type) where
  bus : Bus
  value : α
  snapshot : List SnapshotHandler := []
  /-- What call `n` has answered. -/
  answers : Nat → Option (Answer ε α) := fun _ => none
  firstError : Option ε := none
  outcomes : List (Option α) := []
  returned : Option (Except ε (Report α)) := none

namespace Dispatch

variable (d : Dispatch ε α)

def returns (b : Bus) (result : Except ε (Report α)) : Dispatch ε α := { d with bus := b, returned := some result }

/-- The answers of the calls before call `n`. -/
def upTo (n : Nat) : List (Answer ε α) := (List.range n).filterMap d.answers

/-- There is no slot for the event. -/
def unheard : Except ε (Report α) :=
  match d.bus.kind with
  | .emit => .ok .unit
  | .serial | .parallel => .ok (.outcomes [])
  | .bail => .ok (.outcome none)
  | .waterfall => .ok (.outcome (some d.value))

/-- What the loops of `emit`, `serial` and `bail` do with an answer. -/
def settle (b : Bus) (answer : Answer ε α) : Dispatch ε α :=
  match d.bus.kind, answer with
  | .emit, .error error => { d with bus := b, firstError := d.firstError.or (some error) }
  | .serial, .error error | .bail, .error error => d.returns b (.error error)
  | .serial, .ok outcome => { d with bus := b, outcomes := d.outcomes ++ [outcome] }
  | .bail, .ok (some value) => d.returns b (.ok (.outcome (some value)))
  | _, _ => { d with bus := b }

/-- The loop has ended. -/
def leaves (b : Bus) : Dispatch ε α :=
  match d.bus.kind with
  | .emit => d.returns b (match d.firstError with
    | none => .ok .unit
    | some error => .error error)
  | .serial => d.returns b (.ok (.outcomes d.outcomes))
  | .bail => d.returns b (.ok (.outcome none))
  | _ => { d with bus := b }

/-- The next step of the dispatch itself. -/
def advance : Option (Dispatch ε α) :=
  (stepDispatch d.bus).map fun b =>
    match d.bus.pc with
    | .start =>
      match d.bus.slot with
      | none => d.returns b d.unheard
      | some snapshot => { d with bus := b, snapshot := snapshot }
    | .loop [] => d.leaves b
    | .await n _ =>
      match d.answers n with
      | some answer => d.settle b answer
      | none => { d with bus := b }
    | .join => d.returns b ((collect (d.upTo d.bus.calls.length)).map .outcomes)
    | .cascade =>
      match d.answers 0 with
      | some answer => d.returns b (answer.map .outcome)
      | none => d.returns b (.ok (.outcome (some d.value)))
    | _ => { d with bus := b }

inductive Label (ε α : Type)
  | bus (l : EventBus.Label)
  | advance
  | answer (n : Nat) (answer : Answer ε α)

/-- The steps that have a label of their own. -/
def special : EventBus.Label → Bool
  | .dispatch | .call _ (.finish _) => true
  | _ => false

def step (d : Dispatch ε α) : Label ε α → Option (Dispatch ε α)
  | .bus l => if special l then none else (EventBus.step d.bus l).map fun b => { d with bus := b }
  | .advance => d.advance
  | .answer n answer =>
    (EventBus.step d.bus (.call n (.finish answer.outcome))).map fun b =>
      { d with bus := b, answers := Function.update d.answers n (some answer) }

def start (b : Bus) (value : α) : Dispatch ε α := { bus := b, value := value }

end Dispatch

/-! ## What it should be -/

/-- The answer ends `serial` or `bail`. -/
def Answer.ends (kind : Kind) (answer : Answer ε α) : Bool := kind.ends answer.outcome

/-- What a dispatch returns whose calls answer this, in the order of the snapshot. -/
def report (kind : Kind) (value : α) (answers : List (Answer ε α)) : Except ε (Report α) :=
  match kind with
  | .emit =>
    match answers.findSome? Answer.error? with
    | none => .ok .unit
    | some error => .error error
  | .serial | .parallel => (collect answers).map .outcomes
  | .bail => ((answers.find? (Answer.ends .bail)).getD (.ok none)).map .outcome
  | .waterfall => (answers.head?.getD (.ok (some value))).map .outcome

/-- The outcome of a call that has returned. -/
def Phase.outcome? : Phase → Option Outcome
  | .returned outcome | .released outcome => some outcome
  | _ => none

namespace Dispatch

variable {d d' : Dispatch ε α}

/-- The calls before call `n` have been dealt with by one of the loops. -/
structure Settled (d : Dispatch ε α) (n : Nat) : Prop where
  released : ∀ m c, m < n → d.bus.calls[m]? = some c → ∃ outcome, c.phase = .released outcome
  goes : ∀ answer ∈ d.upTo n, answer.ends d.bus.kind = false
  firstError : d.bus.kind = .emit → d.firstError = (d.upTo n).findSome? Answer.error?
  outcomes : d.bus.kind = .serial → collect (d.upTo n) = .ok d.outcomes

/-- In one of the loops. `parallel` waits for nothing there. -/
def Looping (d : Dispatch ε α) : Prop :=
  d.bus.kind = .parallel ∨ d.bus.kind ≠ .waterfall ∧ d.Settled d.bus.calls.length

/-- How far the dispatch is. -/
def Stage (d : Dispatch ε α) : Prop :=
  match d.bus.pc with
  | .start => d.bus.calls = [] ∧ d.bus.cascades = [] ∧ d.firstError = none ∧ d.outcomes = []
  | .loop _ | .acquire .. => d.Looping
  | .await n _ => d.bus.kind ≠ .parallel ∧ d.bus.kind ≠ .waterfall ∧ n + 1 = d.bus.calls.length ∧ d.Settled n
  | .join => d.bus.kind = .parallel
  | .filter .. => d.bus.kind = .waterfall ∧ d.bus.calls = [] ∧ d.bus.cascades = []
  | .cascade => d.bus.kind = .waterfall
  | .finished =>
    d.returned = some (report d.bus.kind d.value (d.upTo d.bus.calls.length)) ∧
      if d.bus.kind = .waterfall then
        d.bus.calls = [] ∧ d.bus.cascades = [] ∨
          ∃ c outcome, d.bus.calls[0]? = some c ∧ c.phase = .released outcome
      else
        (∀ c ∈ d.bus.calls, ∃ outcome, c.phase = .released outcome) ∧
          ∀ answer ∈ d.upTo (d.bus.calls.length - 1), d.bus.kind = .parallel ∨ answer.ends d.bus.kind = false

/-- What is still to come: in the loop, or in the one continuation of a `waterfall`. -/
def ahead (b : Bus) : List SnapshotHandler :=
  b.pc.todo ++ b.cascades.flatten ++ (b.calls.filterMap (·.next)).flatten

/-- The invariant of a dispatch. -/
structure Orderly (d : Dispatch ε α) : Prop where
  answered : ∀ n, (d.answers n).map Answer.outcome = (d.bus.calls[n]?).bind (·.phase.outcome?)
  order : (d.bus.calls.map (·.handler) ++ ahead d.bus).Sublist d.snapshot
  single : d.bus.cascades.length + d.bus.calls.countP (·.next.isSome) ≤ 1
  plain : d.bus.kind ≠ .waterfall → d.bus.cascades = [] ∧ ∀ c ∈ d.bus.calls, c.next = none
  stage : d.Stage

theorem orderly_start {b : Bus} (hfresh : Fresh b) (value : α) : Orderly (start (ε := ε) b value) := by
  have hcalls := hfresh.calls
  have hcascades := hfresh.cascades
  have hpc := hfresh.pc
  refine ⟨fun n => ?_, ?_, ?_, fun _ => ⟨hcascades, ?_⟩, ?_⟩
  · simp [start, hcalls]
  · simp [start, hcalls, hcascades, hpc, ahead, Pc.todo]
  · simp [start, hcalls, hcascades]
  · simp [start, hcalls]
  · simp [start, Stage, hpc, hcalls, hcascades]

/-! ## Answers -/

theorem upTo_succ {n : Nat} {answer : Answer ε α} (h : d.answers n = some answer) :
    d.upTo (n + 1) = d.upTo n ++ [answer] := by
  simp [upTo, List.range_succ, List.filterMap_append, h]

theorem upTo_congr {n : Nat} (h : ∀ m < n, d'.answers m = d.answers m) : d'.upTo n = d.upTo n :=
  List.filterMap_congr fun m hm => h m (List.mem_range.mp hm)

theorem Orderly.answer_of_released (ho : Orderly d) {n : Nat} {c : Call} {outcome : Outcome}
    (hn : d.bus.calls[n]? = some c) (hphase : c.phase = .released outcome) :
    ∃ answer, d.answers n = some answer ∧ answer.outcome = outcome := by
  have h := ho.answered n
  rw [hn, Option.bind_some, hphase] at h
  exact Option.map_eq_some_iff.mp h

theorem collect_append (answers : List (Answer ε α)) (answer : Answer ε α) :
    collect (answers ++ [answer]) =
      (collect answers).bind fun outcomes => answer.map fun outcome => outcomes ++ [outcome] := by
  induction answers with
  | nil => cases answer <;> rfl
  | cons first rest ih =>
    cases first with
    | error e => rfl
    | ok outcome =>
      rw [List.cons_append, collect, ih, collect]
      cases collect rest <;> cases answer <;> rfl

theorem find_append_of_goes {answers : List (Answer ε α)} {answer : Answer ε α} {kind : Kind}
    (h : ∀ a ∈ answers, a.ends kind = false) (hends : answer.ends kind = true) :
    (answers ++ [answer]).find? (Answer.ends kind) = some answer := by
  have hnone : answers.find? (Answer.ends kind) = none := by
    rw [List.find?_eq_none]
    intro a ha
    rw [h a ha]
    exact Bool.false_ne_true
  rw [List.find?_append, hnone, Option.none_or, List.find?_singleton, hends]
  rfl

/-! ## The loops -/

theorem Settled.congr {n : Nat} (hs : d.Settled n) (hkind : d'.bus.kind = d.bus.kind)
    (hcalls : ∀ m < n, d'.bus.calls[m]? = d.bus.calls[m]?) (hanswers : ∀ m < n, d'.answers m = d.answers m)
    (hfirst : d'.firstError = d.firstError) (houtcomes : d'.outcomes = d.outcomes) : d'.Settled n := by
  have hupTo := upTo_congr hanswers
  refine ⟨fun m c hm hc => hs.released m c hm (hcalls m hm ▸ hc), ?_, ?_, ?_⟩
  · rw [hupTo, hkind]
    exact hs.goes
  · rw [hupTo, hkind, hfirst]
    exact hs.firstError
  · rw [hupTo, hkind, houtcomes]
    exact hs.outcomes

theorem Looping.congr (h : d.Looping) (hkind : d'.bus.kind = d.bus.kind) (hcalls : d'.bus.calls = d.bus.calls)
    (hanswers : d'.answers = d.answers) (hfirst : d'.firstError = d.firstError)
    (houtcomes : d'.outcomes = d.outcomes) : d'.Looping := by
  unfold Looping
  rw [hkind, hcalls]
  refine h.imp_right fun ⟨hwaterfall, hsettled⟩ => ⟨hwaterfall, ?_⟩
  exact hsettled.congr hkind (fun _ _ => by rw [hcalls]) (fun _ _ => by rw [hanswers]) hfirst houtcomes

theorem Looping.stage (h : d.Looping)
    (hpc : (∃ handler rest, d.bus.pc = .acquire handler rest) ∨ ∃ rest, d.bus.pc = .loop rest) : d.Stage := by
  unfold Stage
  rcases hpc with ⟨handler, rest, hpc⟩ | ⟨rest, hpc⟩ <;> rw [hpc] <;> exact h

theorem Settled.next {n : Nat} {answer : Answer ε α} (hs : d.Settled n) (hanswer : d.answers n = some answer)
    (hreleased : ∀ c, d.bus.calls[n]? = some c → ∃ outcome, c.phase = .released outcome)
    (hends : answer.ends d.bus.kind = false) (hbus : d'.bus.kind = d.bus.kind) (hcalls : d'.bus.calls = d.bus.calls)
    (hanswers : d'.answers = d.answers)
    (hfirst : d.bus.kind = .emit → d'.firstError = d.firstError.or answer.error?)
    (houtcomes : d.bus.kind = .serial → ∀ outcome, answer = .ok outcome → d'.outcomes = d.outcomes ++ [outcome]) :
    d'.Settled (n + 1) := by
  have hupTo : d'.upTo (n + 1) = d.upTo n ++ [answer] := by
    rw [← upTo_succ hanswer]
    exact upTo_congr fun m _ => by rw [hanswers]
  refine ⟨fun m c hm hc => ?_, fun a ha => ?_, fun hkind => ?_, fun hkind => ?_⟩
  · rw [hcalls] at hc
    rcases Nat.lt_succ_iff_lt_or_eq.mp hm with hlt | rfl
    · exact hs.released m c hlt hc
    · exact hreleased c hc
  · rw [hbus]
    rw [hupTo] at ha
    rcases List.mem_append.mp ha with hold | hnew
    · exact hs.goes a hold
    · rw [List.mem_singleton.mp hnew]
      exact hends
  · rw [hbus] at hkind
    rw [hfirst hkind, hupTo, List.findSome?_append, hs.firstError hkind]
    cases answer <;> rfl
  · rw [hbus] at hkind
    cases hcase : answer with
    | error e =>
      rw [hcase, hkind] at hends
      cases hends
    | ok outcome => rw [houtcomes hkind outcome hcase, hupTo, collect_append, hs.outcomes hkind, hcase]; rfl

theorem Settled.report_ends {n : Nat} {answer : Answer ε α} (hs : d.Settled n)
    (hends : answer.ends d.bus.kind = true) :
    report d.bus.kind d.value (d.upTo n ++ [answer]) = answer.map .outcome := by
  cases hkind : d.bus.kind with
  | emit | parallel | waterfall =>
    rw [hkind] at hends
    rcases answer with error | _ | value <;> cases hends
  | serial =>
    rw [hkind] at hends
    rcases answer with error | _ | value
    · show (collect (d.upTo n ++ [.error error])).map _ = _
      rw [collect_append, hs.outcomes hkind]
      rfl
    · cases hends
    · cases hends
  | bail =>
    rw [hkind] at hends
    show (((d.upTo n ++ [answer]).find? (Answer.ends .bail)).getD _).map _ = _
    rw [find_append_of_goes (fun a ha => hkind ▸ hs.goes a ha) hends]
    rfl

theorem Settled.leaves_eq {n : Nat} (hs : d.Settled n) (hparallel : d.bus.kind ≠ .parallel)
    (hwaterfall : d.bus.kind ≠ .waterfall) (b : Bus) :
    d.leaves b = d.returns b (report d.bus.kind d.value (d.upTo n)) := by
  unfold leaves
  cases hkind : d.bus.kind with
  | emit =>
    show d.returns b _ = d.returns b (match (d.upTo n).findSome? Answer.error? with
      | none => .ok .unit
      | some error => .error error)
    rw [hs.firstError hkind]
  | serial =>
    show d.returns b _ = d.returns b ((collect (d.upTo n)).map .outcomes)
    rw [hs.outcomes hkind]
    rfl
  | bail =>
    show d.returns b _ = d.returns b ((((d.upTo n).find? (Answer.ends .bail)).getD _).map _)
    have hnone : (d.upTo n).find? (Answer.ends .bail) = none := by
      rw [List.find?_eq_none]
      intro a ha
      have hgoes := hs.goes a ha
      rw [hkind] at hgoes
      rw [hgoes]
      exact Bool.false_ne_true
    rw [hnone]
    rfl
  | parallel => exact absurd hkind hparallel
  | waterfall => exact absurd hkind hwaterfall

/-! ## The dispatch takes a step -/

theorem Orderly.unasked (ho : Orderly d) {n : Nat} (hn : d.bus.calls.length ≤ n) : d.answers n = none := by
  have h := ho.answered n
  rw [List.getElem?_eq_none hn] at h
  exact Option.map_eq_none_iff.mp h

theorem Orderly.shrinks (ho : Orderly d) (hkind : d'.bus.kind = d.bus.kind) (hcalls : d'.bus.calls = d.bus.calls)
    (hcascades : d'.bus.cascades.length ≤ d.bus.cascades.length) (hanswers : d'.answers = d.answers)
    (hsnapshot : d'.snapshot = d.snapshot) (hahead : (ahead d'.bus).Sublist (ahead d.bus)) (hstage : d'.Stage) :
    Orderly d' := by
  refine ⟨fun n => ?_, ?_, ?_, fun hplain => ?_, hstage⟩
  · rw [hanswers, hcalls]
    exact ho.answered n
  · rw [hcalls, hsnapshot]
    exact (hahead.append_left _).trans ho.order
  · rw [hcalls]
    exact (Nat.add_le_add_right hcascades _).trans ho.single
  · rw [hkind] at hplain
    obtain ⟨hnone, hnext⟩ := ho.plain hplain
    rw [hcalls]
    rw [hnone] at hcascades
    exact ⟨List.length_eq_zero_iff.mp (Nat.le_zero.mp hcascades), hnext⟩

theorem Orderly.turns (ho : Orderly d) (hkind : d'.bus.kind = d.bus.kind) (hcalls : d'.bus.calls = d.bus.calls)
    (hcascades : d'.bus.cascades = d.bus.cascades) (hanswers : d'.answers = d.answers)
    (hsnapshot : d'.snapshot = d.snapshot) (htodo : d'.bus.pc.todo.Sublist d.bus.pc.todo) (hstage : d'.Stage) :
    Orderly d' := by
  refine ho.shrinks hkind hcalls (by rw [hcascades]) hanswers hsnapshot ?_ hstage
  unfold ahead
  rw [hcalls, hcascades]
  exact (htodo.append_right _).append_right _

theorem upTo_head {n : Nat} {answer : Answer ε α} (h : d.answers 0 = some answer) (hn : 0 < n) :
    (d.upTo n).head? = some answer := by
  cases n with
  | zero => cases hn
  | succ n =>
    unfold upTo
    rw [List.range_succ_eq_map, List.filterMap_cons_some h]
    rfl

theorem report_waterfall {n : Nat} {answer : Answer ε α} (hkind : d.bus.kind = .waterfall)
    (h : d.answers 0 = some answer) (hn : 0 < n) :
    report d.bus.kind d.value (d.upTo n) = answer.map .outcome := by
  rw [hkind]
  show (((d.upTo n).head?).getD _).map _ = _
  rw [upTo_head h hn]
  rfl

theorem released_of_not_holds {c : Call} (h : c.holds = false) : ∃ outcome, c.phase = .released outcome := by
  unfold Call.holds at h
  split at h
  · exact ⟨_, ‹_›⟩
  · cases h

theorem orderly_start_step (ho : Orderly d) (hpc : d.bus.pc = .start) (hs : d.advance = some d') : Orderly d' := by
  have hstage := ho.stage
  unfold Stage at hstage
  rw [hpc] at hstage
  obtain ⟨hcalls, hcascades, hfirst, houtcomes⟩ := hstage
  unfold advance stepDispatch at hs
  rw [hpc] at hs
  have hempty : ∀ n, d.upTo n = [] := fun n =>
    List.filterMap_eq_nil_iff.mpr fun m _ => ho.unasked (by rw [hcalls]; exact Nat.zero_le m)
  cases hslot : d.bus.slot with
  | none =>
    simp only [hslot, Option.map_some, Option.some.injEq] at hs
    subst hs
    refine ho.turns rfl rfl rfl rfl rfl (List.nil_sublist _) ⟨?_, ?_⟩
    · show some d.unheard = some (report d.bus.kind d.value (d.upTo _))
      rw [hempty, unheard]
      cases d.bus.kind <;> rfl
    · show if d.bus.kind = .waterfall then _ else _
      split_ifs
      · exact .inl ⟨hcalls, hcascades⟩
      · refine ⟨fun c hc => ?_, fun answer ha => ?_⟩
        · rw [show d.bus.calls = [] from hcalls] at hc
          cases hc
        · rw [show (d.returns _ _).upTo _ = d.upTo _ from rfl, hempty] at ha
          cases ha
  | some snapshot =>
    simp only [hslot, Option.map_some, Option.some.injEq] at hs
    subst hs
    have hsettled : ∀ b : Bus, b.kind = d.bus.kind → b.calls = d.bus.calls →
        Settled { d with bus := b, snapshot := snapshot } d.bus.calls.length := by
      intro b hkind hsame
      refine ⟨fun m c hm => ?_, fun answer ha => ?_, fun _ => ?_, fun _ => ?_⟩
      · rw [hcalls] at hm
        cases hm
      · rw [show upTo { d with bus := b, snapshot := snapshot } _ = d.upTo _ from rfl, hempty] at ha
        cases ha
      · show d.firstError = (d.upTo _).findSome? _
        rw [hempty, hfirst]
        rfl
      · show collect (d.upTo _) = .ok d.outcomes
        rw [hempty, houtcomes]
        rfl
    refine ⟨fun n => ho.answered n, ?_, ho.single, ho.plain, ?_⟩
    · show (d.bus.calls.map _ ++ (_ ++ d.bus.cascades.flatten ++ (d.bus.calls.filterMap _).flatten)).Sublist
        snapshot
      rw [hcalls, hcascades]
      split_ifs <;> simp [Pc.todo]
    · by_cases hwaterfall : d.bus.kind = .waterfall
      · simp only [Stage, hwaterfall, if_true]
        exact ⟨trivial, hcalls, hcascades⟩
      · simp only [Stage, hwaterfall, if_false]
        exact .inr ⟨hwaterfall, hsettled _ rfl rfl⟩

theorem stage_finished (hpc : d.bus.pc = .finished) (hkind : d.bus.kind ≠ .waterfall)
    (hreturned : d.returned = some (report d.bus.kind d.value (d.upTo d.bus.calls.length)))
    (hreleased : ∀ c ∈ d.bus.calls, ∃ outcome, c.phase = .released outcome)
    (hgoes : ∀ answer ∈ d.upTo (d.bus.calls.length - 1), d.bus.kind = .parallel ∨ answer.ends d.bus.kind = false) :
    d.Stage := by
  unfold Stage
  rw [hpc]
  refine ⟨hreturned, ?_⟩
  rw [if_neg hkind]
  exact ⟨hreleased, hgoes⟩

theorem stage_await {n : Nat} {rest : List SnapshotHandler} (hpc : d.bus.pc = .await n rest)
    (hparallel : d.bus.kind ≠ .parallel) (hwaterfall : d.bus.kind ≠ .waterfall) (hlast : n + 1 = d.bus.calls.length)
    (hsettled : d.Settled n) : d.Stage := by
  unfold Stage
  rw [hpc]
  exact ⟨hparallel, hwaterfall, hlast, hsettled⟩

theorem mem_upTo {n : Nat} {answer : Answer ε α} :
    answer ∈ d.upTo n ↔ ∃ m < n, d.answers m = some answer := by
  unfold upTo
  rw [List.mem_filterMap]
  exact ⟨fun ⟨m, hm, ha⟩ => ⟨m, List.mem_range.mp hm, ha⟩, fun ⟨m, hm, ha⟩ => ⟨m, List.mem_range.mpr hm, ha⟩⟩

theorem Settled.mem_released {n : Nat} (hs : d.Settled n) (hlen : d.bus.calls.length ≤ n) :
    ∀ c ∈ d.bus.calls, ∃ outcome, c.phase = .released outcome := by
  intro c hc
  obtain ⟨m, hm⟩ := List.getElem?_of_mem hc
  obtain ⟨hlt, -⟩ := List.getElem?_eq_some_iff.mp hm
  exact hs.released m c (Nat.lt_of_lt_of_le hlt hlen) hm

theorem orderly_loop_nil_step (ho : Orderly d) (hpc : d.bus.pc = .loop []) (hs : d.advance = some d') :
    Orderly d' := by
  have hstage := ho.stage
  unfold Stage at hstage
  rw [hpc] at hstage
  unfold advance stepDispatch at hs
  simp only [hpc, Option.map_some, Option.some.injEq] at hs
  subst hs
  by_cases hparallel : d.bus.kind = .parallel
  · have hleaves : ∀ b, d.leaves b = { d with bus := b } := fun b => by rw [leaves, hparallel]
    rw [hleaves, if_pos hparallel]
    exact ho.turns rfl rfl rfl rfl rfl (List.nil_sublist _) hparallel
  · obtain ⟨hwaterfall, hsettled⟩ := hstage.resolve_left hparallel
    rw [hsettled.leaves_eq hparallel hwaterfall, if_neg hparallel]
    refine ho.turns rfl rfl rfl rfl rfl (List.nil_sublist _)
      (stage_finished rfl hwaterfall rfl (hsettled.mem_released le_rfl) fun answer ha => ?_)
    obtain ⟨m, hm, ha⟩ := mem_upTo.mp ha
    exact .inr (hsettled.goes answer (mem_upTo.mpr ⟨m, Nat.lt_of_lt_of_le hm (Nat.sub_le _ _), ha⟩))

theorem orderly_loop_cons_step {handler : SnapshotHandler} {rest : List SnapshotHandler} (ho : Orderly d)
    (hpc : d.bus.pc = .loop (handler :: rest)) (hs : d.advance = some d') : Orderly d' := by
  have hstage := ho.stage
  unfold Stage at hstage
  rw [hpc] at hstage
  unfold advance stepDispatch at hs
  simp only [hpc, Option.map_some, Option.some.injEq] at hs
  subst hs
  refine ho.turns rfl rfl rfl rfl rfl ?_ ?_
  · rw [hpc]
    dsimp only
    split_ifs
    · exact List.Sublist.refl _
    · exact List.sublist_cons_self _ _
  · refine Looping.stage (Looping.congr hstage rfl rfl rfl rfl rfl) ?_
    dsimp only
    split_ifs
    · exact .inl ⟨handler, rest, rfl⟩
    · exact .inr ⟨rest, rfl⟩

theorem Orderly.admits {c : Call} (ho : Orderly d) (hkind : d'.bus.kind = d.bus.kind)
    (hcalls : d'.bus.calls = d.bus.calls ++ [c]) (hphase : c.phase = .admitted) (hanswers : d'.answers = d.answers)
    (hsnapshot : d'.snapshot = d.snapshot) (hahead : c.handler :: ahead d'.bus = ahead d.bus)
    (hsingle : d'.bus.cascades.length + (if c.next.isSome then 1 else 0) ≤ d.bus.cascades.length)
    (hplain : d.bus.kind ≠ .waterfall → c.next = none) (hstage : d'.Stage) : Orderly d' := by
  refine ⟨fun n => ?_, ?_, ?_, fun hnot => ?_, hstage⟩
  · rw [hanswers, hcalls]
    rcases Nat.lt_trichotomy n d.bus.calls.length with hlt | rfl | hgt
    · rw [List.getElem?_append_left hlt]
      exact ho.answered n
    · rw [List.getElem?_concat_length, ho.unasked le_rfl, Option.bind_some, hphase]
      rfl
    · rw [List.getElem?_eq_none (by simpa using Nat.succ_le_of_lt hgt), ho.unasked (Nat.le_of_lt hgt)]
      rfl
  · have horder := ho.order
    rw [← hahead] at horder
    rw [hcalls, hsnapshot, List.map_append, List.append_assoc]
    exact horder
  · rw [hcalls, List.countP_append, List.countP_singleton]
    have hsingle' := ho.single
    omega
  · rw [hkind] at hnot
    obtain ⟨hcascades, hnone⟩ := ho.plain hnot
    rw [hcalls]
    refine ⟨List.length_eq_zero_iff.mp ?_, fun x hx => ?_⟩
    · rw [hcascades, List.length_nil] at hsingle
      omega
    · rcases List.mem_append.mp hx with hold | hnew
      · exact hnone x hold
      · rw [List.mem_singleton.mp hnew]
        exact hplain hnot

theorem orderly_acquire_step {handler : SnapshotHandler} {rest : List SnapshotHandler} (ho : Orderly d)
    (hpc : d.bus.pc = .acquire handler rest) (hs : d.advance = some d') : Orderly d' := by
  have hstage := ho.stage
  unfold Stage at hstage
  rw [hpc] at hstage
  unfold advance stepDispatch at hs
  simp only [hpc] at hs
  cases hacquired : d.bus.gates.tryAcquire handler.gate with
  | none =>
    simp only [hacquired, Option.map_some, Option.some.injEq] at hs
    subst hs
    refine ho.turns rfl rfl rfl rfl rfl ?_
        (Looping.stage (Looping.congr hstage rfl rfl rfl rfl rfl) (.inr ⟨rest, rfl⟩))
    rw [hpc]
    exact List.sublist_cons_self _ _
  | some gates =>
    simp only [hacquired, Option.map_some, Option.some.injEq] at hs
    subst hs
    refine ho.admits (c := ⟨handler, .admitted, none⟩) rfl rfl rfl rfl rfl ?_ le_rfl (fun _ => rfl) ?_
    · unfold ahead
      rw [hpc]
      dsimp only [Bus.admitted]
      rw [List.filterMap_append]
      split_ifs <;> simp [Pc.todo]
    · by_cases hparallel : d.bus.kind = .parallel
      · rw [if_pos hparallel]
        exact Looping.stage (.inl hparallel) (.inr ⟨rest, rfl⟩)
      · obtain ⟨hwaterfall, hsettled⟩ := hstage.resolve_left hparallel
        rw [if_neg hparallel]
        refine ⟨hparallel, hwaterfall, by simp [Bus.admitted], ?_⟩
        exact hsettled.congr rfl (fun m hm => List.getElem?_append_left hm) (fun _ _ => rfl) rfl rfl

theorem settle_of_goes {answer : Answer ε α} (hends : answer.ends d.bus.kind = false) (b : Bus) :
    d.settle b answer =
      { d with
        bus := b
        firstError := if d.bus.kind = .emit then d.firstError.or answer.error? else d.firstError
        outcomes := if d.bus.kind = .serial then d.outcomes ++ answer.toOption.toList else d.outcomes } := by
  unfold settle
  cases hkind : d.bus.kind <;> rw [hkind] at hends <;> rcases answer with error | _ | value <;>
    first | (simp [Answer.error?, Except.toOption]; done) | cases hends

theorem settle_of_ends {answer : Answer ε α} (hends : answer.ends d.bus.kind = true) (b : Bus) :
    d.settle b answer = d.returns b (answer.map .outcome) := by
  unfold settle
  cases hkind : d.bus.kind <;> rw [hkind] at hends <;> rcases answer with error | _ | value <;>
    first | rfl | cases hends

theorem orderly_await_step {n : Nat} {rest : List SnapshotHandler} (ho : Orderly d)
    (hpc : d.bus.pc = .await n rest) (hs : d.advance = some d') : Orderly d' := by
  have hstage := ho.stage
  unfold Stage at hstage
  rw [hpc] at hstage
  obtain ⟨hparallel, hwaterfall, hlast, hsettled⟩ := hstage
  obtain ⟨b', hb, rfl⟩ := Option.map_eq_some_iff.mp hs
  unfold stepDispatch at hb
  rw [hpc] at hb
  dsimp only at hb
  split at hb <;> cases hb
  rename_i outcome hphase
  obtain ⟨c, hc, hreleased⟩ := Option.map_eq_some_iff.mp hphase
  obtain ⟨answer, hanswer, rfl⟩ := ho.answer_of_released hc hreleased
  simp only [hpc, hanswer]
  have hall : ∀ c, d.bus.calls[n]? = some c → ∃ outcome, c.phase = .released outcome := by
    intro c' hc'
    rw [hc] at hc'
    cases hc'
    exact ⟨_, hreleased⟩
  cases hends : answer.ends d.bus.kind with
  | true =>
    have hstops : d.bus.kind.ends answer.outcome = true := hends
    rw [settle_of_ends hends, if_pos hstops]
    refine ho.turns rfl rfl rfl rfl rfl (List.nil_sublist _) (stage_finished rfl hwaterfall ?_ ?_ ?_)
    · show some _ = some (report d.bus.kind d.value (d.upTo d.bus.calls.length))
      rw [← hlast, upTo_succ hanswer, hsettled.report_ends hends]
    · intro c' hc'
      obtain ⟨m, hm⟩ := List.getElem?_of_mem hc'
      obtain ⟨hlt, -⟩ := List.getElem?_eq_some_iff.mp hm
      rcases Nat.lt_succ_iff_lt_or_eq.mp (hlast ▸ hlt) with hbefore | rfl
      · exact hsettled.released m c' hbefore hm
      · exact hall c' hm
    · show ∀ answer ∈ d.upTo (d.bus.calls.length - 1), _
      rw [← hlast, Nat.add_sub_cancel]
      exact fun a ha => .inr (hsettled.goes a ha)
  | false =>
    have hgoes : d.bus.kind.ends answer.outcome = false := hends
    rw [settle_of_goes hends, if_neg (by rw [hgoes]; exact Bool.false_ne_true)]
    refine ho.turns rfl rfl rfl rfl rfl ?_ (Looping.stage (.inr ⟨hwaterfall, ?_⟩) (.inr ⟨rest, rfl⟩))
    · rw [hpc]
      exact List.Sublist.refl _
    · show Settled _ d.bus.calls.length
      rw [← hlast]
      refine hsettled.next hanswer hall hends rfl rfl rfl (fun hkind => if_pos hkind) fun hkind outcome heq => ?_
      rw [heq]
      exact if_pos hkind

theorem orderly_join_step (ho : Orderly d) (hpc : d.bus.pc = .join) (hs : d.advance = some d') : Orderly d' := by
  have hstage := ho.stage
  unfold Stage at hstage
  rw [hpc] at hstage
  have hparallel : d.bus.kind = .parallel := hstage
  obtain ⟨b', hb, rfl⟩ := Option.map_eq_some_iff.mp hs
  unfold stepDispatch at hb
  rw [hpc] at hb
  dsimp only at hb
  split at hb <;> cases hb
  rename_i hall
  simp only [hpc]
  refine ho.turns rfl rfl rfl rfl rfl (List.nil_sublist _) (stage_finished rfl ?_ ?_ ?_ fun _ _ => .inl hparallel)
  · show d.bus.kind ≠ .waterfall
    rw [hparallel]
    exact Kind.noConfusion
  · show some _ = some (report d.bus.kind d.value (d.upTo d.bus.calls.length))
    rw [hparallel]
    rfl
  · intro c hc
    have hdone := List.all_eq_true.mp hall c hc
    exact released_of_not_holds (by simpa using hdone)

theorem orderly_filter_step {rest kept : List SnapshotHandler} (ho : Orderly d)
    (hpc : d.bus.pc = .filter rest kept) (hs : d.advance = some d') : Orderly d' := by
  have hstage := ho.stage
  unfold Stage at hstage
  rw [hpc] at hstage
  obtain ⟨hwaterfall, hcalls, hcascades⟩ := hstage
  obtain ⟨b', hb, rfl⟩ := Option.map_eq_some_iff.mp hs
  unfold stepDispatch at hb
  simp only [hpc]
  cases rest with
  | nil =>
    simp only [hpc, Option.some.injEq] at hb
    subst hb
    refine ⟨ho.answered, ?_, ?_, fun hplain => absurd hwaterfall hplain, hwaterfall⟩
    · have horder := ho.order
      unfold ahead at horder ⊢
      rw [hpc] at horder
      simpa [Pc.todo, hcascades] using horder
    · show (d.bus.cascades ++ [kept]).length + d.bus.calls.countP _ ≤ 1
      rw [hcascades, hcalls]
      exact le_rfl
  | cons handler rest =>
    simp only [hpc, Option.some.injEq] at hb
    subst hb
    refine ho.turns rfl rfl rfl rfl rfl ?_ ⟨hwaterfall, hcalls, hcascades⟩
    rw [hpc]
    show ((if _ then _ else _) ++ rest).Sublist (kept ++ handler :: rest)
    split_ifs
    · rw [List.append_assoc]
      exact List.Sublist.refl _
    · exact (List.sublist_cons_self _ _).append_left _

theorem orderly_cascade_step (ho : Orderly d) (hpc : d.bus.pc = .cascade) (hs : d.advance = some d') :
    Orderly d' := by
  have hstage := ho.stage
  unfold Stage at hstage
  rw [hpc] at hstage
  have hwaterfall : d.bus.kind = .waterfall := hstage
  obtain ⟨b', hb, rfl⟩ := Option.map_eq_some_iff.mp hs
  unfold stepDispatch at hb
  rw [hpc] at hb
  dsimp only at hb
  simp only [hpc]
  split at hb
  · rename_i hcalls
    split_ifs at hb with hcascades
    cases hb
    have hnone : d.answers 0 = none := ho.unasked (by rw [hcalls]; exact le_rfl)
    rw [hnone]
    refine ho.turns rfl rfl rfl rfl rfl (List.nil_sublist _) ⟨?_, ?_⟩
    · show some _ = some (report d.bus.kind d.value (d.upTo d.bus.calls.length))
      rw [hwaterfall, hcalls]
      rfl
    · show if d.bus.kind = .waterfall then _ else _
      rw [if_pos hwaterfall]
      exact .inl ⟨hcalls, hcascades⟩
  · rename_i c rest hcalls
    split_ifs at hb with hholds
    cases hb
    obtain ⟨outcome, hreleased⟩ := released_of_not_holds (Bool.eq_false_of_not_eq_true hholds)
    have hc : d.bus.calls[0]? = some c := by
      rw [hcalls]
      rfl
    obtain ⟨answer, hanswer, -⟩ := ho.answer_of_released hc hreleased
    rw [hanswer]
    refine ho.turns rfl rfl rfl rfl rfl (List.nil_sublist _) ⟨?_, ?_⟩
    · show some _ = some (report d.bus.kind d.value (d.upTo d.bus.calls.length))
      rw [report_waterfall hwaterfall hanswer (by rw [hcalls]; exact Nat.succ_pos _)]
    · show if d.bus.kind = .waterfall then _ else _
      rw [if_pos hwaterfall]
      exact .inr ⟨c, outcome, hc, hreleased⟩

theorem orderly_advance (ho : Orderly d) (hs : d.advance = some d') : Orderly d' := by
  cases hpc : d.bus.pc with
  | start => exact orderly_start_step ho hpc hs
  | loop rest =>
    cases rest with
    | nil => exact orderly_loop_nil_step ho hpc hs
    | cons handler rest => exact orderly_loop_cons_step ho hpc hs
  | acquire handler rest => exact orderly_acquire_step ho hpc hs
  | await n rest => exact orderly_await_step ho hpc hs
  | join => exact orderly_join_step ho hpc hs
  | filter rest kept => exact orderly_filter_step ho hpc hs
  | cascade => exact orderly_cascade_step ho hpc hs
  | finished =>
    obtain ⟨b', hb, -⟩ := Option.map_eq_some_iff.mp hs
    unfold stepDispatch at hb
    rw [hpc] at hb
    cases hb

/-! ## The handlers take steps -/

theorem todo_of_waterfall (ho : Orderly d) (hkind : d.bus.kind = .waterfall)
    (hpending : d.bus.calls ≠ [] ∨ d.bus.cascades ≠ []) :
    d.bus.pc = .cascade ∨ d.bus.pc = .finished ∧
      d.returned = some (report d.bus.kind d.value (d.upTo d.bus.calls.length)) ∧
        ∃ c outcome, d.bus.calls[0]? = some c ∧ c.phase = .released outcome := by
  have hstage := ho.stage
  unfold Stage at hstage
  have hnone : ¬ (d.bus.calls = [] ∧ d.bus.cascades = []) := fun ⟨hcalls, hcascades⟩ =>
    hpending.elim (absurd hcalls) (absurd hcascades)
  have hnotLooping : ¬ d.Looping := by
    rintro (hparallel | ⟨hplain, -⟩)
    · rw [hkind] at hparallel
      cases hparallel
    · exact hplain hkind
  cases hpc : d.bus.pc with
  | cascade => exact .inl rfl
  | finished =>
    rw [hpc] at hstage
    obtain ⟨hreturned, hfirst⟩ := hstage
    rw [if_pos hkind] at hfirst
    exact .inr ⟨rfl, hreturned, hfirst.resolve_left hnone⟩
  | start =>
    rw [hpc] at hstage
    exact absurd ⟨hstage.1, hstage.2.1⟩ hnone
  | loop | acquire =>
    rw [hpc] at hstage
    exact absurd hstage hnotLooping
  | await =>
    rw [hpc] at hstage
    exact absurd hkind hstage.2.1
  | join =>
    rw [hpc] at hstage
    rw [hkind] at hstage
    cases hstage
  | filter =>
    rw [hpc] at hstage
    exact absurd hstage.2 hnone

/-- The calls of a `waterfall` go on after their dispatch, which has returned what the first one answered. -/
theorem stage_of_waterfall (ho : Orderly d) (hkind : d.bus.kind = .waterfall)
    (hpending : d.bus.calls ≠ [] ∨ d.bus.cascades ≠ []) (hpc : d'.bus.pc = d.bus.pc)
    (hkind' : d'.bus.kind = d.bus.kind) (hreturned : d'.returned = d.returned)
    (hfirst : ∀ c outcome, d.bus.calls[0]? = some c → c.phase = .released outcome →
      (∃ c', d'.bus.calls[0]? = some c' ∧ c'.phase = .released outcome) ∧ d'.answers 0 = d.answers 0) :
    d'.Stage := by
  unfold Stage
  rcases todo_of_waterfall ho hkind hpending with hcascade | ⟨hfinished, hreport, c, outcome, hc, hphase⟩
  · rw [hpc, hcascade]
    exact hkind'.trans hkind
  · obtain ⟨⟨c', hc', hphase'⟩, hsame⟩ := hfirst c outcome hc hphase
    obtain ⟨answer, hanswer, -⟩ := ho.answer_of_released hc hphase
    rw [report_waterfall hkind hanswer (List.getElem?_eq_some_iff.mp hc).1] at hreport
    rw [hpc, hfinished]
    refine ⟨?_, ?_⟩
    · rw [hreturned, hreport,
        report_waterfall (hkind'.trans hkind) (hsame.trans hanswer) (List.getElem?_eq_some_iff.mp hc').1]
    · rw [if_pos (hkind'.trans hkind)]
      exact .inr ⟨c', outcome, hc', hphase'⟩

theorem Orderly.continuation {k : Nat} {rest : List SnapshotHandler} (ho : Orderly d)
    (hk : d.bus.cascades[k]? = some rest) :
    d.bus.kind = .waterfall ∧ k = 0 ∧ d.bus.cascades = [rest] ∧ (∀ c ∈ d.bus.calls, c.next = none) ∧
      d.bus.pc.todo = [] := by
  have hne : d.bus.cascades ≠ [] := List.ne_nil_of_mem (List.mem_of_getElem? hk)
  have hkind : d.bus.kind = .waterfall := by
    by_contra hplain
    exact hne (ho.plain hplain).1
  obtain ⟨hlt, -⟩ := List.getElem?_eq_some_iff.mp hk
  have hsingle := ho.single
  have hzero : k = 0 := by omega
  have hone : d.bus.cascades.length = 1 := by omega
  have hcount : d.bus.calls.countP (·.next.isSome) = 0 := by omega
  obtain ⟨only, honly⟩ := List.length_eq_one_iff.mp hone
  rw [hzero, honly] at hk
  cases hk
  refine ⟨hkind, hzero, honly, fun c hc => ?_, ?_⟩
  · simpa using List.countP_eq_zero.mp hcount c hc
  · rcases todo_of_waterfall ho hkind (.inr hne) with hcascade | ⟨hfinished, -⟩
    · rw [hcascade]
      rfl
    · rw [hfinished]
      rfl

theorem filterMap_next_eq_nil {calls : List Call} (h : ∀ c ∈ calls, c.next = none) :
    calls.filterMap (·.next) = [] :=
  List.filterMap_eq_nil_iff.mpr h

theorem orderly_continuation_step {b' : Bus} {k : Nat} (ho : Orderly d) (hs : stepCascade d.bus k = some b') :
    Orderly { d with bus := b' } := by
  unfold stepCascade at hs
  split at hs
  · cases hs
  · rename_i hk
    obtain ⟨hkind, rfl, hcascades, -, -⟩ := ho.continuation hk
    have hpending : d.bus.calls ≠ [] ∨ d.bus.cascades ≠ [] := .inr (by rw [hcascades]; exact List.cons_ne_nil _ _)
    cases hs
    refine ho.shrinks rfl rfl (List.length_eraseIdx_le ..) rfl rfl ?_
      (stage_of_waterfall ho hkind hpending rfl rfl rfl fun c _ hc hphase => ⟨⟨c, hc, hphase⟩, rfl⟩)
    unfold ahead
    rw [hcascades]
    exact List.Sublist.refl _
  · rename_i handler rest hk
    obtain ⟨hkind, rfl, hcascades, hnext, htodo⟩ := ho.continuation hk
    have hpending : d.bus.calls ≠ [] ∨ d.bus.cascades ≠ [] := .inr (by rw [hcascades]; exact List.cons_ne_nil _ _)
    split at hs
    · cases hs
      refine ho.shrinks rfl rfl (Nat.le_of_eq List.length_set) rfl rfl ?_
        (stage_of_waterfall ho hkind hpending rfl rfl rfl fun c _ hc hphase => ⟨⟨c, hc, hphase⟩, rfl⟩)
      unfold ahead
      rw [hcascades, htodo, filterMap_next_eq_nil hnext]
      simp
    · rename_i gates hgates
      cases hs
      refine ho.admits (c := ⟨handler, .admitted, some rest⟩) rfl rfl rfl rfl rfl ?_ ?_
        (fun hplain => absurd hkind hplain) (stage_of_waterfall ho hkind hpending rfl rfl rfl ?_)
      · unfold ahead
        simp [Bus.admitted, hcascades, htodo, filterMap_next_eq_nil hnext]
      · simp [hcascades]
      · intro c outcome hc hphase
        exact ⟨⟨c, (List.getElem?_append_left (List.getElem?_eq_some_iff.mp hc).1).trans hc, hphase⟩, rfl⟩

/-- While a call holds its lease, `parallel` may be anywhere, and the others wait for this call. -/
theorem Orderly.stage_of_holding {n : Nat} {c : Call} (ho : Orderly d) (hwaterfall : d.bus.kind ≠ .waterfall)
    (hn : d.bus.calls[n]? = some c)
    (hholds : ∀ outcome, c.phase ≠ .released outcome) :
    (d.bus.kind = .parallel ∧ ∀ d' : Dispatch ε α, d'.bus.kind = d.bus.kind → d'.bus.pc = d.bus.pc → d'.Stage) ∨
      ∃ m rest, d.bus.pc = .await m rest ∧ d.bus.kind ≠ .parallel ∧ m + 1 = d.bus.calls.length ∧ d.Settled m := by
  have hthere := List.mem_of_getElem? hn
  obtain ⟨hlt, -⟩ := List.getElem?_eq_some_iff.mp hn
  have hstage := ho.stage
  unfold Stage at hstage
  have hlooping : d.Looping → d.bus.kind = .parallel := by
    rintro (hparallel | ⟨-, hsettled⟩)
    · exact hparallel
    · obtain ⟨outcome, hphase⟩ := hsettled.released n c hlt hn
      exact absurd hphase (hholds outcome)
  cases hpc : d.bus.pc with
  | start =>
    rw [hpc] at hstage
    rw [hstage.1] at hthere
    cases hthere
  | loop | acquire =>
    rw [hpc] at hstage
    refine .inl ⟨hlooping hstage, fun d' hkind hpc' => ?_⟩
    unfold Stage
    rw [hpc']
    exact .inl (hkind.trans (hlooping hstage))
  | await m rest =>
    rw [hpc] at hstage
    exact .inr ⟨m, rest, rfl, hstage.1, hstage.2.2⟩
  | join =>
    rw [hpc] at hstage
    refine .inl ⟨hstage, fun d' hkind hpc' => ?_⟩
    unfold Stage
    rw [hpc']
    exact hkind.trans hstage
  | filter =>
    rw [hpc] at hstage
    exact absurd hstage.1 hwaterfall
  | cascade =>
    rw [hpc] at hstage
    exact absurd hstage hwaterfall
  | finished =>
    rw [hpc] at hstage
    obtain ⟨-, hreleased⟩ := hstage
    rw [if_neg hwaterfall] at hreleased
    obtain ⟨outcome, hphase⟩ := hreleased.1 c hthere
    exact absurd hphase (hholds outcome)

theorem Orderly.set_call {n : Nat} {c : Call} {phase : Phase} (gates : Gates)
    (answers : Nat → Option (Answer ε α)) (ho : Orderly d) (hn : d.bus.calls[n]? = some c)
    (hholds : ∀ outcome, c.phase ≠ .released outcome)
    (hanswer : (answers n).map Answer.outcome = phase.outcome?) (hothers : ∀ m, m ≠ n → answers m = d.answers m) :
    Orderly { d with bus := { d.bus.setPhase n c phase with gates := gates }, answers := answers } := by
  obtain ⟨hlt, -⟩ := List.getElem?_eq_some_iff.mp hn
  have hhandler : (d.bus.calls.set n { c with phase := phase }).map (·.handler) = d.bus.calls.map (·.handler) :=
    map_set_of_eq hn rfl
  have hnext : (d.bus.calls.set n { c with phase := phase }).filterMap (·.next) =
      d.bus.calls.filterMap (·.next) := by
    have hsame : (d.bus.calls.set n { c with phase := phase }).map (·.next) = d.bus.calls.map (·.next) :=
      map_set_of_eq hn rfl
    rw [show (fun c : Call => c.next) = id ∘ (·.next) from rfl, ← List.filterMap_map, ← List.filterMap_map, hsame]
  have hbefore : ∀ m, m ≠ n → (d.bus.calls.set n { c with phase := phase })[m]? = d.bus.calls[m]? :=
    fun m hm => List.getElem?_set_ne (Ne.symm hm)
  refine ⟨fun m => ?_, ?_, ?_, fun hplain => ?_, ?_⟩
  · show (answers m).map _ = (((d.bus.calls.set n { c with phase := phase })[m]?).bind _)
    by_cases hm : m = n
    · rw [hm, hanswer, List.getElem?_set_self hlt]
      rfl
    · rw [hothers m hm, hbefore m hm]
      exact ho.answered m
  · show ((d.bus.calls.set n _).map _ ++ (_ ++ _ ++ ((d.bus.calls.set n _).filterMap _).flatten)).Sublist _
    rw [hhandler, hnext]
    exact ho.order
  · have hcount := Threads.countP_set (r := fun c : Call => c.next.isSome) (b := { c with phase := phase }) hn
    show d.bus.cascades.length + (d.bus.calls.set n _).countP _ ≤ 1
    rw [Nat.add_right_cancel hcount]
    exact ho.single
  · obtain ⟨hcascades, hnone⟩ := ho.plain hplain
    refine ⟨hcascades, fun x hx => ?_⟩
    rcases List.mem_or_eq_of_mem_set hx with hold | rfl
    · exact hnone x hold
    · exact hnone c (List.mem_of_getElem? hn)
  · by_cases hwaterfall : d.bus.kind = .waterfall
    · refine stage_of_waterfall ho hwaterfall (.inl (List.ne_nil_of_mem (List.mem_of_getElem? hn))) rfl rfl rfl ?_
      intro c' outcome hc' hphase
      have hne : 0 ≠ n := by
        rintro rfl
        rw [hn] at hc'
        cases hc'
        exact hholds outcome hphase
      exact ⟨⟨c', (hbefore 0 hne).trans hc', hphase⟩, hothers 0 hne⟩
    · obtain ⟨hparallel, hstays⟩ | ⟨m, rest, hawait, hparallel, hlast, hsettled⟩ :=
        ho.stage_of_holding hwaterfall hn hholds
      · exact hstays _ rfl rfl
      · have hmn : n = m := by
          rcases Nat.lt_or_ge n m with hbefore | hafter
          · obtain ⟨outcome, hphase⟩ := hsettled.released n c hbefore hn
            exact absurd hphase (hholds outcome)
          · omega
        subst hmn
        refine stage_await hawait hparallel hwaterfall (hlast.trans (List.length_set ..).symm) ?_
        exact hsettled.congr rfl (fun m hm => hbefore m (Nat.ne_of_lt hm))
            (fun m hm => hothers m (Nat.ne_of_lt hm)) rfl
          rfl

theorem Orderly.consume {n : Nat} {c : Call} {rest : List SnapshotHandler} (ho : Orderly d)
    (hn : d.bus.calls[n]? = some c) (hnext : c.next = some rest) :
    Orderly { d with bus := { d.bus with
      calls := d.bus.calls.set n { c with next := none }
      cascades := d.bus.cascades ++ [rest] } } := by
  obtain ⟨hlt, -⟩ := List.getElem?_eq_some_iff.mp hn
  have hthere := List.mem_of_getElem? hn
  have hwaterfall : d.bus.kind = .waterfall := by
    by_contra hplain
    have hnone := (ho.plain hplain).2 c hthere
    rw [hnext] at hnone
    cases hnone
  have hcount := Threads.countP_set (r := fun c : Call => c.next.isSome) (b := { c with next := none }) hn
  simp only [hnext, Option.isSome_some, Option.isSome_none, Bool.toNat_true, Bool.toNat_false] at hcount
  have hsingle := ho.single
  have hcascades : d.bus.cascades = [] := List.length_eq_zero_iff.mp (by omega)
  have hhandler : (d.bus.calls.set n { c with next := none }).map (·.handler) = d.bus.calls.map (·.handler) :=
    map_set_of_eq hn rfl
  have hbefore : d.bus.calls.filterMap (·.next) = [rest] := by
    obtain ⟨only, honly⟩ : ∃ only, d.bus.calls.filterMap (·.next) = [only] := by
      rw [← List.length_eq_one_iff, List.length_filterMap_eq_countP]
      omega
    have hmem : rest ∈ d.bus.calls.filterMap (·.next) := List.mem_filterMap.mpr ⟨c, hthere, hnext⟩
    rw [honly] at hmem
    rw [honly, List.mem_singleton.mp hmem]
  have hafter : (d.bus.calls.set n { c with next := none }).filterMap (·.next) = [] := by
    rw [← List.length_eq_zero_iff, List.length_filterMap_eq_countP]
    omega
  refine ⟨fun m => ?_, ?_, ?_, fun hplain => absurd hwaterfall hplain, ?_⟩
  · show (d.answers m).map _ = (((d.bus.calls.set n { c with next := none })[m]?).bind _)
    rw [ho.answered m]
    by_cases hm : m = n
    · rw [hm, hn, List.getElem?_set_self hlt]
      rfl
    · rw [List.getElem?_set_ne (Ne.symm hm)]
  · have horder := ho.order
    unfold ahead at horder ⊢
    rw [hbefore, hcascades] at horder
    show ((d.bus.calls.set n _).map _ ++ (_ ++ (d.bus.cascades ++ [rest]).flatten ++
      ((d.bus.calls.set n _).filterMap _).flatten)).Sublist _
    rw [hhandler, hafter, hcascades]
    simpa using horder
  · show (d.bus.cascades ++ [rest]).length + (d.bus.calls.set n _).countP _ ≤ 1
    rw [hcascades, List.nil_append, List.length_singleton]
    omega
  · refine stage_of_waterfall ho hwaterfall (.inl (List.ne_nil_of_mem hthere)) rfl rfl rfl
      fun c' outcome hc' hphase => ?_
    refine ⟨?_, rfl⟩
    show ∃ x, (d.bus.calls.set n { c with next := none })[0]? = some x ∧ _
    by_cases hzero : n = 0
    · subst hzero
      rw [hn] at hc'
      cases hc'
      exact ⟨_, List.getElem?_set_self hlt, hphase⟩
    · exact ⟨c', (List.getElem?_set_ne hzero).trans hc', hphase⟩

/-! ## Whole runs -/

theorem Stage.congr (h : d.Stage) (hkind : d'.bus.kind = d.bus.kind) (hpc : d'.bus.pc = d.bus.pc)
    (hcalls : d'.bus.calls = d.bus.calls) (hcascades : d'.bus.cascades = d.bus.cascades)
    (hvalue : d'.value = d.value) (hanswers : d'.answers = d.answers) (hfirst : d'.firstError = d.firstError)
    (houtcomes : d'.outcomes = d.outcomes)
    (hreturned : d'.returned = d.returned) : d'.Stage := by
  have hupTo : ∀ n, d'.upTo n = d.upTo n := fun n => upTo_congr fun m _ => by rw [hanswers]
  have hsettled : ∀ n, d.Settled n → d'.Settled n := fun n hs =>
    hs.congr hkind (fun _ _ => by rw [hcalls]) (fun _ _ => by rw [hanswers]) hfirst houtcomes
  unfold Stage at h ⊢
  rw [hpc]
  cases hcase : d.bus.pc with
  | start | filter | cascade | join | finished =>
    rw [hcase] at h
    simp only [hkind, hcalls, hcascades, hfirst, houtcomes, hreturned, hvalue, hupTo]
    exact h
  | loop | acquire =>
    rw [hcase] at h
    exact Looping.congr h hkind hcalls hanswers hfirst houtcomes
  | await =>
    rw [hcase] at h
    simp only [hkind, hcalls]
    exact ⟨h.1, h.2.1, h.2.2.1, hsettled _ h.2.2.2⟩

theorem Orderly.undisturbed {b' : Bus} (ho : Orderly d) (hkind : b'.kind = d.bus.kind) (hpc : b'.pc = d.bus.pc)
    (hcalls : b'.calls = d.bus.calls) (hcascades : b'.cascades = d.bus.cascades) : Orderly { d with bus := b' } :=
  ho.turns hkind hcalls hcascades rfl rfl (by rw [hpc])
    (ho.stage.congr hkind hpc hcalls hcascades rfl rfl rfl rfl rfl)

theorem orderly_call_step {b' : Bus} {n : Nat} {c : Call} {s : CallStep} (ho : Orderly d)
    (hn : d.bus.calls[n]? = some c)
    (hfinish : ∀ outcome, s ≠ .finish outcome) (hs : stepCall d.bus n c s = some b') :
    Orderly { d with bus := b' } := by
  have hanswered := ho.answered n
  rw [hn, Option.bind_some] at hanswered
  cases s with
  | begin =>
    simp only [stepCall] at hs
    split_ifs at hs with hadmitted
    cases hs
    rw [hadmitted] at hanswered
    refine ho.set_call d.bus.gates d.answers hn (fun outcome => ?_) hanswered fun _ _ => rfl
    rw [hadmitted]
    exact Phase.noConfusion
  | next =>
    simp only [stepCall] at hs
    split at hs
    · cases hs
    · cases hs
    · rename_i rest hnext _
      cases hs
      exact ho.consume hn hnext
  | finish outcome => exact absurd rfl (hfinish outcome)
  | release =>
    simp only [stepCall] at hs
    split at hs
    · rename_i outcome hreturned
      obtain ⟨gates, -, rfl⟩ := Option.map_eq_some_iff.mp hs
      rw [hreturned] at hanswered
      refine ho.set_call gates d.answers hn (fun outcome => ?_) hanswered fun _ _ => rfl
      rw [hreturned]
      exact Phase.noConfusion
    · cases hs

theorem orderly_step {l : Label ε α} (ho : Orderly d) (hs : step d l = some d') : Orderly d' := by
  cases l with
  | advance => exact orderly_advance ho hs
  | answer n answer =>
    obtain ⟨b', hb, rfl⟩ := Option.map_eq_some_iff.mp hs
    simp only [EventBus.step] at hb
    split at hb
    · rename_i c hn
      simp only [stepCall] at hb
      split_ifs at hb with hrunning
      cases hb
      refine ho.set_call d.bus.gates _ hn (fun outcome => ?_) ?_ fun m hm => Function.update_of_ne hm _ _
      · rw [hrunning]
        exact Phase.noConfusion
      · rw [Function.update_self]
        rfl
    · cases hb
  | bus l =>
    simp only [step] at hs
    split_ifs at hs with hspecial
    obtain ⟨b', hb, rfl⟩ := Option.map_eq_some_iff.mp hs
    cases l with
    | register | remove | gateOp =>
      simp only [EventBus.step, Option.some.injEq] at hb
      subst hb
      exact ho.undisturbed rfl rfl rfl rfl
    | gate n =>
      simp only [EventBus.step] at hb
      split at hb
      · obtain ⟨p, -, rfl⟩ := Option.map_eq_some_iff.mp hb
        exact ho.undisturbed rfl rfl rfl rfl
      · cases hb
    | lease g =>
      obtain ⟨gates, -, rfl⟩ := Option.map_eq_some_iff.mp hb
      exact ho.undisturbed rfl rfl rfl rfl
    | unlease g =>
      simp only [EventBus.step] at hb
      split_ifs at hb
      obtain ⟨gates, -, rfl⟩ := Option.map_eq_some_iff.mp hb
      exact ho.undisturbed rfl rfl rfl rfl
    | dispatch => exact absurd rfl hspecial
    | cascade k => exact orderly_continuation_step ho hb
    | call n s =>
      simp only [EventBus.step] at hb
      split at hb
      · rename_i c hn
        refine orderly_call_step ho hn (fun outcome heq => ?_) hb
        subst heq
        exact hspecial rfl
      · cases hb

theorem settle_fixed (d : Dispatch ε α) (b : Bus) (answer : Answer ε α) :
    (d.settle b answer).bus = b ∧ (d.settle b answer).value = d.value := by
  unfold settle
  split <;> exact ⟨rfl, rfl⟩

theorem leaves_fixed (d : Dispatch ε α) (b : Bus) : (d.leaves b).bus = b ∧ (d.leaves b).value = d.value := by
  unfold leaves
  split <;> exact ⟨rfl, rfl⟩

/-- A dispatch with its variables is the dispatch of `Dispatch.EventBus`. -/
theorem advance_bus (hs : d.advance = some d') :
    EventBus.step d.bus .dispatch = some d'.bus ∧ d'.value = d.value := by
  obtain ⟨b', hb, hd⟩ := Option.map_eq_some_iff.mp hs
  suffices h : d'.bus = b' ∧ d'.value = d.value from ⟨h.1 ▸ hb, h.2⟩
  subst hd
  split
  · split <;> exact ⟨rfl, rfl⟩
  · exact leaves_fixed d b'
  · split
    · exact settle_fixed d b' _
    · exact ⟨rfl, rfl⟩
  · exact ⟨rfl, rfl⟩
  · split <;> exact ⟨rfl, rfl⟩
  · exact ⟨rfl, rfl⟩

theorem step_bus {l : Label ε α} (hs : step d l = some d') :
    (∃ l', EventBus.step d.bus l' = some d'.bus) ∧ d'.value = d.value := by
  cases l with
  | advance =>
    obtain ⟨hb, hvalue⟩ := advance_bus hs
    exact ⟨⟨_, hb⟩, hvalue⟩
  | answer n answer =>
    obtain ⟨b', hb, rfl⟩ := Option.map_eq_some_iff.mp hs
    exact ⟨⟨_, hb⟩, rfl⟩
  | bus l =>
    simp only [step] at hs
    split_ifs at hs with hspecial
    obtain ⟨b', hb, rfl⟩ := Option.map_eq_some_iff.mp hs
    exact ⟨⟨_, hb⟩, rfl⟩

theorem stepDispatch_kind {b b' : Bus} (hs : stepDispatch b = some b') : b'.kind = b.kind := by
  unfold stepDispatch at hs
  repeat' split at hs
  all_goals cases hs <;> rfl

theorem step_kind {b b' : Bus} {l : EventBus.Label} (hs : EventBus.step b l = some b') : b'.kind = b.kind := by
  cases l with
  | register | remove | gateOp =>
    cases hs
    rfl
  | gate n =>
    simp only [EventBus.step] at hs
    split at hs
    · obtain ⟨p, -, rfl⟩ := Option.map_eq_some_iff.mp hs
      rfl
    · cases hs
  | lease g =>
    obtain ⟨gates, -, rfl⟩ := Option.map_eq_some_iff.mp hs
    rfl
  | unlease g =>
    simp only [EventBus.step] at hs
    split_ifs at hs
    obtain ⟨gates, -, rfl⟩ := Option.map_eq_some_iff.mp hs
    rfl
  | dispatch => exact stepDispatch_kind hs
  | cascade k =>
    simp only [EventBus.step, stepCascade] at hs
    split at hs
    · cases hs
    · cases hs
      rfl
    · split at hs <;> cases hs <;> rfl
  | call n s =>
    simp only [EventBus.step] at hs
    split at hs
    · cases s with
      | begin | finish =>
        simp only [stepCall] at hs
        split_ifs at hs
        cases hs
        rfl
      | next =>
        simp only [stepCall] at hs
        split at hs <;> cases hs
        rfl
      | release =>
        simp only [stepCall] at hs
        split at hs
        · obtain ⟨gates, -, rfl⟩ := Option.map_eq_some_iff.mp hs
          rfl
        · cases hs
    · cases hs

theorem orderly_of_reach {b : Bus} {value : α} (hfresh : Fresh b)
    (hreach : Reach step anyStep (start (ε := ε) b value) d) :
    Orderly d ∧ d.bus.kind = b.kind ∧ d.value = value := by
  refine hreach.invariant (I := fun d => Orderly d ∧ d.bus.kind = b.kind ∧ d.value = value)
    ⟨orderly_start hfresh value, rfl, rfl⟩ ?_
  rintro t l u ⟨ho, hkind, hvalue⟩ - hs
  obtain ⟨⟨l', hb⟩, hvalue'⟩ := step_bus hs
  exact ⟨orderly_step ho hs, (step_kind hb).trans hkind, hvalue'.trans hvalue⟩

theorem Orderly.one_by_one (ho : Orderly d) (hparallel : d.bus.kind ≠ .parallel)
    (hwaterfall : d.bus.kind ≠ .waterfall)
    {m n : Nat} {c : Call} (hmn : m < n) (hn : n < d.bus.calls.length) (hm : d.bus.calls[m]? = some c) :
    ∃ answer, d.answers m = some answer ∧ c.phase = .released answer.outcome ∧ answer.ends d.bus.kind = false := by
  have hstage := ho.stage
  unfold Stage at hstage
  suffices h : (∃ outcome, c.phase = .released outcome) ∧
      ∀ answer, d.answers m = some answer → answer.ends d.bus.kind = false by
    obtain ⟨⟨outcome, hphase⟩, hgoes⟩ := h
    obtain ⟨answer, hanswer, rfl⟩ := ho.answer_of_released hm hphase
    exact ⟨answer, hanswer, hphase, hgoes answer hanswer⟩
  have hsettled : ∀ k, m < k → d.Settled k → (∃ outcome, c.phase = .released outcome) ∧
      ∀ answer, d.answers m = some answer → answer.ends d.bus.kind = false := fun k hk hs =>
    ⟨hs.released m c hk hm, fun answer ha => hs.goes answer (mem_upTo.mpr ⟨m, hk, ha⟩)⟩
  cases hpc : d.bus.pc with
  | start =>
    rw [hpc] at hstage
    rw [hstage.1] at hn
    cases hn
  | loop | acquire =>
    rw [hpc] at hstage
    exact hsettled _ (Nat.lt_trans hmn hn) (hstage.resolve_left hparallel).2
  | await k rest =>
    rw [hpc] at hstage
    obtain ⟨-, -, hlast, hs⟩ := hstage
    exact hsettled k (by omega) hs
  | join =>
    rw [hpc] at hstage
    exact absurd hstage hparallel
  | filter =>
    rw [hpc] at hstage
    exact absurd hstage.1 hwaterfall
  | cascade =>
    rw [hpc] at hstage
    exact absurd hstage hwaterfall
  | finished =>
    rw [hpc] at hstage
    obtain ⟨-, hreleased⟩ := hstage
    rw [if_neg hwaterfall] at hreleased
    refine ⟨hreleased.1 c (List.mem_of_getElem? hm), fun answer ha => ?_⟩
    exact (hreleased.2 answer (mem_upTo.mpr ⟨m, by omega, ha⟩)).resolve_left hparallel

/-- A dispatch calls handlers of its snapshot in their order, none of them twice; `emit`, `serial` and `bail`
call the next one when the one before has returned, has dropped its lease, and has not ended the dispatch; and
what is returned is what the answers of all the calls make of it, for a `waterfall` the answer of its first
call. -/
theorem dispatch_reports {b : Bus} {value : α} (hfresh : Fresh b)
    (hreach : Reach step anyStep (start (ε := ε) b value) d) :
    (d.bus.calls.map (·.handler)).Sublist d.snapshot ∧
      (b.kind ≠ .parallel → b.kind ≠ .waterfall → ∀ m n c, m < n → n < d.bus.calls.length →
        d.bus.calls[m]? = some c →
        ∃ answer, d.answers m = some answer ∧ c.phase = .released answer.outcome ∧ answer.ends b.kind = false) ∧
      (d.bus.pc = .finished →
        d.returned = some (report b.kind value (d.upTo d.bus.calls.length)) ∧
          (b.kind ≠ .waterfall → ∀ n c, d.bus.calls[n]? = some c →
            ∃ answer, d.answers n = some answer ∧ c.phase = .released answer.outcome)) := by
  obtain ⟨ho, hkind, hvalue⟩ := orderly_of_reach hfresh hreach
  rw [← hkind, ← hvalue]
  refine ⟨(List.sublist_append_left _ _).trans ho.order, fun hparallel hwaterfall m n c hmn hn hm =>
    ho.one_by_one hparallel hwaterfall hmn hn hm, fun hfinished => ?_⟩
  have hstage := ho.stage
  unfold Stage at hstage
  rw [hfinished] at hstage
  refine ⟨hstage.1, fun hwaterfall n c hn => ?_⟩
  have hreleased := hstage.2
  rw [if_neg hwaterfall] at hreleased
  obtain ⟨outcome, hphase⟩ := hreleased.1 c (List.mem_of_getElem? hn)
  obtain ⟨answer, hanswer, rfl⟩ := ho.answer_of_released hn hphase
  exact ⟨answer, hanswer, hphase⟩

/-- The first handler answers an error, and the second is of another generation. -/
def erringRun : List (Label Nat Nat) :=
  List.replicate 3 .advance ++ [.bus (.call 0 .begin), .answer 0 (.error 7), .bus (.call 0 .release)] ++
    List.replicate 3 .advance

theorem dispatch_reports_erring : ∃ d, run step (start Cordis.Dispatch.emitting 3) erringRun = some d ∧
    d.bus.pc = .finished ∧ d.returned = some (.error 7) := by
  obtain ⟨d, hrun, hfinished, hanswers⟩ : ∃ d, run step (start Cordis.Dispatch.emitting 3) erringRun = some d ∧
      d.bus.pc = .finished ∧ d.upTo d.bus.calls.length = [.error 7] := ⟨_, rfl, rfl, rfl⟩
  have hreport := ((dispatch_reports Cordis.Dispatch.fresh_emitting (reach_of_run hrun)).2.2 hfinished).1
  rw [hanswers] at hreport
  exact ⟨d, hrun, hfinished, hreport⟩

end Dispatch

end Cordis.EventBus
