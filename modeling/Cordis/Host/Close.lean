import Cordis.Host.Acknowledged

/-!
# Recognising a graceful close

Both directions together, and the two runs that keep them from holding of every run: the supervisor may
look at the acknowledgement before the reader has dispatched it, and a failure that is accepted as the
answer to `Shutdown` counts as an acknowledgement.
-/

namespace Cordis.Actors

open Protocol Session Machine

/-- In a graceful close no session fails; once the supervisor has ended the session is closed, and as
soon as the child has exited and the acknowledgement is stored it can be closed. Conversely, while no
live `Shutdown` is answered by a failure that leaves the session as it is, a closed session has
dispatched a `ShutdownAck` for the request of a `shutdown`, and its child has exited with success. -/
theorem graceful_close_recognised (config : ProcessHostConfig) (h : Host) :
    (Reach step Graceful (Host.new config) h →
      h.session.state ≠ .Failed ∧ (h.supervisor = .ended → h.session.state = .Closed) ∧
        (h.session.shutdownAcked = true → h.exitStatus = some true →
          ∃ h', Reach step Graceful h h' ∧ h'.session.state = .Closed)) ∧
      (Reach step Acknowledges (Host.new config) h → h.session.state = .Closed →
        Acknowledged h.session ∧ h.exitStatus = some true) := by
  constructor
  · intro hreach
    have hinv := closing_reach hreach
    refine ⟨hinv.state, fun hended => ?_, closes_of_acknowledged hinv⟩
    have hcalm := hinv.supervisor
    unfold SupervisorCalm at hcalm
    rwa [hended] at hcalm
  · intro hreach hclosed
    have hinv := seen_reach hreach
    obtain ⟨hacked, hexit⟩ := hinv.closed (.inl hclosed)
    exact ⟨hinv.traced.acked hacked, hexit⟩

/-! ## Runs -/

/-- A check that suffices for a step to be graceful. -/
def gracefulCheck (h : Host) : Label → Bool
  | .call _ | .negotiate _ | .respond _ | .closeInput => true
  | .exit success => success && h.session.shutdownAcked
  | .run n _ =>
    match h.session.threads[n]? with
    | some (.dispatch message .check) => decide (message.id.toNat ≤ h.session.highestIssued)
    | some (.dispatch message (.judge entry)) =>
      entry.expected.accepts message && (terminalRemote message).isNone
    | _ => true
  | .reader _ =>
    match h.reader, h.stdout with
    | .read limit, payload :: _ => decide (payload.length ≤ limit)
    | .decode payload, _ =>
      (! payloadIsControl payload || decide (payload.length ≤ h.session.maxControlBytes)) &&
        (decode payload h.session.limits).isOk
    | _, _ => true
  | .writer .. =>
    match h.writer with
    | .encode message =>
      match encode message
          (writerLimit h.session.state h.session.limits h.session.maxControlBytes message) with
      | .ok payload => decide (payload.length ≤ U32_MAX)
      | .error _ => false
    | .write _ => h.stdinOpen
    | _ => true
  | .supervisor _ =>
    match h.supervisor with
    | .exited _ => h.session.shutdownAcked
    | _ => true
  | _ => false

theorem accepted_of_check {h : Host} {n : Nat} {b : Bool} (hcheck : gracefulCheck h (.run n b) = true) :
    Graceful h (.run n b) := by
  intro message pc hn
  simp only [gracefulCheck, hn] at hcheck
  cases pc with
  | check =>
    show message.id.toNat ≤ h.session.highestIssued
    exact of_decide_eq_true hcheck
  | judge entry =>
    obtain ⟨haccepts, hremote⟩ := Bool.and_eq_true_iff.mp hcheck
    exact ⟨haccepts, Option.isNone_iff_eq_none.mp hremote⟩
  | _ => trivial

theorem reader_of_check {h : Host} {stop : Bool} (hcheck : gracefulCheck h (.reader stop) = true) :
    Graceful h (.reader stop) := by
  constructor
  · intro limit payload rest hread hout
    simp only [gracefulCheck, hread, hout] at hcheck
    exact of_decide_eq_true hcheck
  · intro payload hread
    simp only [gracefulCheck, hread] at hcheck
    obtain ⟨hcontrol, hdecode⟩ := Bool.and_eq_true_iff.mp hcheck
    constructor
    · rintro ⟨hpayload, hlarge⟩
      rw [hpayload, Bool.not_true, Bool.false_or] at hcontrol
      exact absurd (of_decide_eq_true hcontrol) (not_le.mpr hlarge)
    · cases hresult : decode payload h.session.limits with
      | error error =>
        rw [hresult] at hdecode
        cases hdecode
      | ok message => exact ⟨message, rfl⟩

theorem writer_of_check {h : Host} {stop : Bool} {nanos : UInt64}
    (hcheck : gracefulCheck h (.writer stop nanos) = true) : Graceful h (.writer stop nanos) := by
  constructor
  · intro message hwriter
    simp only [gracefulCheck, hwriter] at hcheck
    split at hcheck
    · rename_i payload hencode
      exact ⟨payload, hencode, of_decide_eq_true hcheck⟩
    · cases hcheck
  · intro payload hwriter
    simp only [gracefulCheck, hwriter] at hcheck
    exact hcheck

theorem graceful_of_check {h : Host} {l : Label} (hcheck : gracefulCheck h l = true) :
    Graceful h l := by
  cases l with
  | run n b => exact accepted_of_check hcheck
  | reader stop => exact reader_of_check hcheck
  | writer stop nanos => exact writer_of_check hcheck
  | exit success =>
    obtain ⟨hsuccess, hacked⟩ := Bool.and_eq_true_iff.mp hcheck
    exact ⟨hsuccess, .inl hacked⟩
  | supervisor other =>
    intro hsup
    simp only [gracefulCheck, hsup] at hcheck
    exact hcheck
  | drop n => cases hcheck
  | force => cases hcheck
  | closeOutput torn => cases hcheck
  | waitError => cases hcheck
  | _ => trivial

/-- The frame of a message. -/
def frameOf (message : Message) : List UInt8 :=
  match encode message ABSOLUTE_HANDSHAKE_FRAME_LIMIT with
  | .ok payload => payload
  | .error _ => []

/-- Call `n` sends its request. -/
def sendRun (n : Nat) : List Label :=
  List.replicate 10 (Label.run n false) ++ List.replicate 3 (Label.writer false 0)

/-- The child answers, and thread `n` dispatches the answer. -/
def receiveRun (message : Message) (n steps : Nat) : List Label :=
  Label.respond (frameOf message) :: List.replicate 3 (Label.reader false) ++
    List.replicate steps (Label.run n false) ++ [Label.reader false]

/-- A handshake, the negotiation, and a `shutdown` that waits for its answer. -/
def drainingRun : List Label :=
  Label.call .handshake :: sendRun 0 ++
    receiveRun (.HelloAck 1 PROTOCOL_MAJOR PROTOCOL_MINOR SUPPORTED_FEATURES REQUIRED_FEATURES
      ProcessHostConfig.default.limits) 1 4 ++
    List.replicate 2 (Label.run 0 false) ++
    Label.negotiate ProcessHostConfig.default.limits :: List.replicate 4 (Label.run 2 false) ++
    Label.call .shutdown :: sendRun 3

/-- The child acknowledges, and exits once the acknowledgement is dispatched. -/
def gracefulRun : List Label :=
  drainingRun ++ receiveRun (.ShutdownAck 2) 4 5 ++ Label.exit true :: List.replicate 2 (Label.supervisor false) ++
    List.replicate 7 (Label.run 5 false) ++ List.replicate 2 (Label.supervisor false) ++
    [Label.reader false, .reader true, .writer true 0] ++ List.replicate 2 (Label.supervisor false)

def graceful : Host := (run step (.new .default) gracefulRun).getD (.new .default)

/-- A check that suffices for a step to answer no `Shutdown` with a failure. -/
def acknowledgesCheck (h : Host) : Label → Bool
  | .run n _ =>
    match h.session.threads[n]? with
    | some (.dispatch message (.judge _)) => ! isFailure message
    | _ => true
  | _ => true

theorem acknowledges_of_check {h : Host} {l : Label} (hcheck : acknowledgesCheck h l = true) :
    Acknowledges h l := by
  cases l with
  | run n b =>
    rintro message pc hn ⟨entry, rfl, -, hfailure, -⟩
    simp only [acknowledgesCheck, hn, hfailure] at hcheck
    cases hcheck
  | _ => trivial

set_option maxRecDepth 2000 in
theorem graceful_reached : Reach step Graceful (Host.new .default) graceful ∧
    Reach step Acknowledges (Host.new .default) graceful := by
  have hrun : runIf step (fun h l => gracefulCheck h l = true ∧ acknowledgesCheck h l = true)
      (Host.new .default) gracefulRun = some graceful := rfl
  have hreach := reach_of_runIf hrun
  exact ⟨hreach.mono fun _ _ hcheck => graceful_of_check hcheck.1,
    hreach.mono fun _ _ hcheck => acknowledges_of_check hcheck.2⟩

theorem graceful_close_recognised_run :
    (graceful.session.state = .Closed ∧ graceful.session.state ≠ .Failed) ∧
      Acknowledged graceful.session ∧ graceful.exitStatus = some true := by
  obtain ⟨hsafe, hconverse⟩ := graceful_close_recognised .default graceful
  obtain ⟨hfailed, hclosed, -⟩ := hsafe graceful_reached.1
  exact ⟨⟨hclosed rfl, hfailed⟩, hconverse graceful_reached.2 (hclosed rfl)⟩

/-- The steps of a graceful close, whenever the supervisor looks at the acknowledgement. -/
def Promised (h : Host) (l : Label) : Prop := (∃ other, l = .supervisor other) ∨ Graceful h l

/-- A check that suffices for a step to be promised. -/
def promisedCheck (h : Host) : Label → Bool
  | .supervisor _ => true
  | l => gracefulCheck h l

theorem promised_of_check {h : Host} {l : Label} (hcheck : promisedCheck h l = true) :
    Promised h l := by
  unfold promisedCheck at hcheck
  split at hcheck
  · exact .inl ⟨_, rfl⟩
  · exact .inr (graceful_of_check hcheck)

/-- The acknowledgement is written, and still in the pipe. -/
def answered : Host :=
  (run step (.new .default) (drainingRun ++ [.respond (frameOf (.ShutdownAck 2))])).getD (.new .default)

set_option maxRecDepth 2000 in
theorem answered_reached : Reach step Promised (Host.new .default) answered := by
  have hrun : runIf step (fun h l => promisedCheck h l = true) (Host.new .default)
      (drainingRun ++ [.respond (frameOf (.ShutdownAck 2))]) = some answered := rfl
  exact (reach_of_runIf hrun).mono fun _ _ => promised_of_check

theorem answered_in_time : Answered answered := by
  have hack : IsAck 2 (frameOf (.ShutdownAck 2)) := ⟨ABSOLUTE_HANDSHAKE_FRAME_LIMIT, rfl⟩
  have hlive : Live answered.session 2 := ⟨3, true, .await 2, rfl, by decide, rfl⟩
  exact .inr (.piped (by decide) hack hlive)

/-- The child exits, and the supervisor sees it first. -/
def overtakenRun : List Label :=
  List.replicate 2 (.supervisor false) ++ List.replicate 4 (.run 4 false)

def exited : Host := (step answered (.exit true)).getD answered

def overtaken : Host := (run step exited overtakenRun).getD answered

/-- The child refuses the `Shutdown`, and exits once the refusal is dispatched. -/
def refusedRun : List Label :=
  drainingRun ++ receiveRun (.Failure 2 (.Host ⟨.Overloaded, ""⟩)) 4 5 ++
    Label.exit true :: List.replicate 2 (Label.supervisor false) ++ List.replicate 4 (Label.run 5 false)

def refused : Host := (run step (.new .default) refusedRun).getD (.new .default)

/-- A `ShutdownAck` that is dispatched. -/
def dispatchesAck : Pc → Bool
  | .dispatch (.ShutdownAck _) _ => true
  | _ => false

/-- A session fails although its child has answered the live `Shutdown` and exited with success, and a
session is closed although its child has acknowledged nothing. -/
theorem exit_overtakes_acknowledgement :
    (Reach step Promised (Host.new .default) overtaken ∧ overtaken.session.state = .Failed) ∧
      Reach step anyStep (Host.new .default) refused ∧ refused.session.state = .Closed ∧
        ¬ Acknowledged refused.session := by
  refine ⟨⟨?_, rfl⟩, ?_, rfl, ?_⟩
  · have hgraceful : Graceful answered (.exit true) := ⟨rfl, answered_in_time⟩
    have hexit : Reach step Promised answered exited := .tail .refl (.inr hgraceful) rfl
    have hrun : runIf step (fun h l => promisedCheck h l = true) exited overtakenRun =
        some overtaken := rfl
    exact (answered_reached.trans hexit).trans
      ((reach_of_runIf hrun).mono fun _ _ => promised_of_check)
  · have hrun : run step (Host.new .default) refusedRun = some refused := rfl
    exact reach_of_run hrun
  · -- the only messages that were dispatched are a `HelloAck` and a `Failure`
    rintro ⟨k, id, pc, entry, call, hk, -⟩
    have hnone : refused.session.threads.all (fun p => ! dispatchesAck p) = true := rfl
    have hbad := List.all_eq_true.mp hnone _ (List.mem_of_getElem? hk)
    cases hbad

end Cordis.Actors
