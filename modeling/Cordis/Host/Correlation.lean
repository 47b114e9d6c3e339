import Cordis.Host.Journal

/-!
# Responses and their calls

A response reaches the call that took its id, and no other. Request ids are never reused, and every id
that the peer can have seen is at most `highest_issued`, so a peer that answers what it was asked never
fails the session, and an answer that comes too late is ignored.
-/

namespace Cordis.Session

open Protocol Machine

section

variable {s : SessionInner} {log : List Event} {message : Message} {n : Nat} {b : Bool}

theorem Recorded.step_check (h : Recorded s log) {sent : Message} (hsent : .send sent ∈ log)
    (hid : message.id = sent.id) (hn : s.threads[n]? = some (.dispatch message .check)) :
    step s (.run n b) = some { s with threads := s.threads.set n (.dispatch message .remove) } := by
  obtain ⟨k, -, hle⟩ := h.sent sent hsent
  have hnot : ¬ message.id.toNat > s.highestIssued := by
    rw [hid]
    omega
  simp only [step, hn, Option.bind_eq_bind, Option.bind_some, stepThread, stepDispatch, if_neg hnot,
    Option.map_some]

theorem Recorded.step_check_left (h : Recorded s log) (hleft : .leave message.id.toNat ∈ log)
    (hn : s.threads[n]? = some (.dispatch message .check)) :
    step s (.run n b) = some { s with threads := s.threads.set n (.dispatch message .remove) } := by
  have hnot : ¬ message.id.toNat > s.highestIssued := by
    have := (h.left _ hleft).2.1
    omega
  simp only [step, hn, Option.bind_eq_bind, Option.bind_some, stepThread, stepDispatch, if_neg hnot,
    Option.map_some]

theorem lookup_eq_none_of_not_mem {id : Nat} (h : id ∉ s.keys) : s.pending.lookup id = none := by
  refine List.lookup_eq_none_iff.mpr fun p hp => ?_
  rw [bne_iff_ne]
  rintro rfl
  exact h (List.mem_map_of_mem hp)

theorem Recorded.step_remove_left (h : Recorded s log) (hleft : .leave message.id.toNat ∈ log)
    (hn : s.threads[n]? = some (.dispatch message .remove)) :
    step s (.run n b) =
      some { s with threads := s.threads.set n (.dispatch message (.done none true)) } := by
  have hnone := lookup_eq_none_of_not_mem (h.left _ hleft).1
  simp only [step, hn, Option.bind_eq_bind, Option.bind_some, stepThread, stepDispatch, hnone,
    Option.map_some]

end

/-- A response is delivered to the call that took its id and accepts its kind; ids are pairwise distinct
and never the excluded ones; the ids in `pending` and in all messages sent so far are below both
counters, so that no answer to a received id is a future id, and an answer to an entry that has left
changes nothing but the place of its own thread. -/
theorem response_correlation (config : ProcessHostConfig) (s : SessionInner) (log : List Event)
    (h : Reach journal anyStep (SessionInner.new config, []) (s, log)) :
    (∀ (k : Nat) (message : Message), (k, .ok message) ∈ s.replies →
      .issue k message.id.toNat ∈ log ∧ ∃ (op : Operation) (pc : CallPc),
        s.threads[k]? = some (.call op pc) ∧ op.expected.accepts message) ∧
    (ids log).Nodup ∧ (∀ id ∈ ids log, id ≠ 0 ∧ id < U64_MAX) ∧
    (∀ id ∈ s.keys, id ≤ s.highestIssued ∧ id < s.nextId) ∧
    (∀ message, .send message ∈ log →
      message.id.toNat ≤ s.highestIssued ∧ message.id.toNat < s.nextId) ∧
    (∀ message ∈ s.outbound, .send message ∈ log) ∧
    (∀ (n : Nat) (message sent : Message) (b : Bool), .send sent ∈ log → message.id = sent.id →
      s.threads[n]? = some (.dispatch message .check) →
        step s (.run n b) =
          some { s with threads := s.threads.set n (.dispatch message .remove) }) ∧
    (∀ (n : Nat) (message : Message) (b : Bool), .leave message.id.toNat ∈ log →
      message.id.toNat ∉ s.keys ∧
      (s.threads[n]? = some (.dispatch message .check) → step s (.run n b) =
        some { s with threads := s.threads.set n (.dispatch message .remove) }) ∧
      (s.threads[n]? = some (.dispatch message .remove) → step s (.run n b) =
        some { s with threads := s.threads.set n (.dispatch message (.done none true)) })) := by
  have hr : Recorded s log := recorded_reach h
  refine ⟨hr.replies, hr.once, fun id hid => ?_, fun id hid => ?_, fun message hsend => ?_, hr.queued,
    fun n message sent b hsent hid hn => hr.step_check hsent hid hn, fun n message b hleft =>
      ⟨(hr.left _ hleft).1, hr.step_check_left hleft, hr.step_remove_left hleft⟩⟩
  · obtain ⟨k, hk⟩ := mem_ids.mp hid
    obtain ⟨hzero, hlt⟩ := hr.issued k id hk
    exact ⟨hzero, hlt.trans_le hr.counter.2⟩
  · obtain ⟨⟨i, e⟩, he, rfl⟩ := List.mem_map.mp hid
    obtain ⟨⟨hissue, -⟩, hle⟩ := hr.pending i e he
    exact ⟨hle, (hr.issued _ i hissue).2⟩
  · obtain ⟨k, hissue, hle⟩ := hr.sent message hsend
    exact ⟨hle, (hr.issued k _ hissue).2⟩

/-- A handshake, its answer, and the same answer a second time. -/
def answeredRun : List Label :=
  Label.call .handshake :: List.replicate 10 (Label.run 0 false) ++
    Label.receive :: .dispatch (.HelloAck 1 1 1 1 1 ⟨1, 1, 1, 1, 1⟩) :: List.replicate 4 (Label.run 1 false) ++
    [Label.dispatch (.HelloAck 1 1 1 1 1 ⟨1, 1, 1, 1, 1⟩)]

def answered : SessionInner × List Event :=
  (run journal (.new .default, []) answeredRun).getD (.new .default, [])

theorem answered_reached : Reach journal anyStep (SessionInner.new .default, []) answered := by
  have hrun : run journal (SessionInner.new .default, []) answeredRun = some answered := rfl
  exact reach_of_run hrun

theorem response_correlation_answered :
    .issue 0 1 ∈ answered.2 ∧ step answered.1 (.run 2 false) = some { answered.1 with
      threads := answered.1.threads.set 2
        (.dispatch (.HelloAck 1 1 1 1 1 ⟨1, 1, 1, 1, 1⟩) .remove) } := by
  obtain ⟨hdelivered, -, -, -, -, -, -, hlate⟩ :=
    response_correlation .default answered.1 answered.2 answered_reached
  obtain ⟨-, hcheck, -⟩ := hlate 2 (.HelloAck 1 1 1 1 1 ⟨1, 1, 1, 1, 1⟩) false (by decide)
  exact ⟨(hdelivered 0 (.HelloAck 1 1 1 1 1 ⟨1, 1, 1, 1, 1⟩) (by decide)).1, hcheck rfl⟩

end Cordis.Session
