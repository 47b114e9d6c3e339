import Cordis.Library.Machine

/-!
# Machines that keep a record

`recording step note` runs `step` and appends to a log what `note` says about each step. No step reads
the log, so the runs are those of `step`: `Reach.unrecorded` forgets the log, `Reach.recorded` finds one.
`Justified p log` says of each entry that `p` holds between what is before it and the entry.
-/

namespace Machine

variable {σ α β : Type*} {step : σ → α → Option σ} {ok : σ → α → Prop} {note : σ → α → σ → List β}
  {s t : σ} {p q : σ × List β} {a : α}

/-- The machine `step` with a log of its steps. -/
def recording (step : σ → α → Option σ) (note : σ → α → σ → List β) (p : σ × List β) (a : α) :
    Option (σ × List β) :=
  (step p.1 a).map fun t => (t, p.2 ++ note p.1 a t)

theorem recording_eq_some (h : recording step note p a = some q) :
    step p.1 a = some q.1 ∧ q.2 = p.2 ++ note p.1 a q.1 := by
  obtain ⟨t, ht, rfl⟩ := Option.map_eq_some_iff.mp h
  exact ⟨ht, rfl⟩

theorem Reach.unrecorded (h : Reach (recording step note) (fun p => ok p.1) p q) :
    Reach step ok p.1 q.1 := by
  induction h with
  | refl => exact .refl
  | tail _ hok hs ih => exact .tail ih hok (recording_eq_some hs).1

theorem Reach.recorded (h : Reach step ok s t) (log : List β) :
    ∃ log', Reach (recording step note) (fun p => ok p.1) (s, log) (t, log') := by
  induction h with
  | refl => exact ⟨log, .refl⟩
  | @tail t u a _ hok hs ih =>
    obtain ⟨log', hlog⟩ := ih
    refine ⟨log' ++ note t a u, hlog.tail hok ?_⟩
    simp only [recording, hs, Option.map_some]

theorem Reach.log_prefix (h : Reach (recording step note) (fun p => ok p.1) p q) : p.2 <+: q.2 := by
  induction h with
  | refl => exact List.prefix_rfl
  | tail _ _ hs ih =>
    rw [(recording_eq_some hs).2]
    exact ih.trans (List.prefix_append _ _)

section Justified

variable {r : List β → β → Prop} {log : List β} {x : β}

/-- Each entry of the log stands in relation `r` to what is before it. -/
def Justified (r : List β → β → Prop) (log : List β) : Prop :=
  ∀ before x after, log = before ++ x :: after → r before x

theorem justified_nil : Justified r [] := by
  intro before x after h
  exact absurd h (by simp)

theorem Justified.snoc (h : Justified r log) (hx : r log x) : Justified r (log ++ [x]) := by
  intro before y after heq
  rcases List.eq_nil_or_concat after with rfl | ⟨after', z, rfl⟩
  · obtain ⟨rfl, hy⟩ := List.append_inj' heq rfl
    cases hy
    exact hx
  · rw [List.concat_eq_append, ← List.cons_append, ← List.append_assoc] at heq
    exact h before y after' (List.append_inj' heq rfl).1

theorem Justified.mono {r' : List β → β → Prop} (h : Justified r log)
    (hr : ∀ before x, r before x → r' before x) : Justified r' log :=
  fun before x after heq => hr before x (h before x after heq)

/-- Each new entry is supported by the log and the new entries before it. -/
theorem Justified.extend {new : List β} (h : Justified r log)
    (hnew : ∀ before x after, new = before ++ x :: after → r (log ++ before) x) :
    Justified r (log ++ new) := by
  induction new generalizing log with
  | nil => rwa [List.append_nil]
  | cons x new ih =>
    rw [← List.singleton_append, ← List.append_assoc]
    have hx := hnew [] x new rfl
    rw [List.append_nil] at hx
    refine ih (h.snoc hx) fun before y after heq => ?_
    rw [List.append_assoc]
    exact hnew (x :: before) y after (by rw [heq, List.cons_append])

theorem Justified.append {new : List β} (h : Justified r log) (hnew : ∀ before, ∀ x ∈ new, r before x) :
    Justified r (log ++ new) :=
  h.extend fun before x _ heq => hnew (log ++ before) x (heq ▸ List.mem_append_right _ List.mem_cons_self)

end Justified

end Machine
