import Cordis.Gate.Execution
import Cordis.Library.Machine

/-!
# The execution word counts the leases

In every state that any number of threads can reach, with fewer leases than the word has room for,
the word encodes one of the three states together with the number of leases that were admitted and
not released (`Coherent`), and one atomic operation moves it as `try_acquire`, `drop_inflight` or
`begin_draining` of the decoded record does.
-/

namespace Cordis

open Machine

/-! ## The encoding -/

theorem state_mask_mod (word : Nat) : word &&& EXECUTION_STATE_MASK = word % 4 :=
  Nat.and_two_pow_sub_one_eq_mod word 2

theorem executionInflight_eq (word : Nat) : executionInflight word = word / 4 :=
  Nat.shiftRight_eq_div_pow word 2

theorem execution_max_inflight_eq (w : Nat) : EXECUTION_MAX_INFLIGHT w = (2 ^ w - 1) / 4 :=
  Nat.shiftRight_eq_div_pow _ 2

namespace GenerationExecutionState

variable (st : GenerationExecutionState)

theorem code_lt : st.code < 3 := by cases st <;> decide

@[simp] theorem executionState_encoded (n : Nat) : executionState (4 * n + st.code) = some st := by
  have hmod : (4 * n + st.code) &&& EXECUTION_STATE_MASK = st.code := by
    have := st.code_lt
    rw [state_mask_mod]
    omega
  unfold executionState
  rw [hmod]
  cases st <;> rfl

@[simp] theorem executionInflight_encoded (n : Nat) : executionInflight (4 * n + st.code) = n := by
  have := st.code_lt
  rw [executionInflight_eq]
  omega

@[simp] theorem executionWord_encoded {w n : Nat} (h : 4 * n < 2 ^ w) :
    executionWord w st.code n = 4 * n + st.code := by
  have hlt := st.code_lt
  have hshift : n <<< EXECUTION_STATE_BITS = 4 * n := by
    rw [Nat.shiftLeft_eq]
    exact Nat.mul_comm n 4
  unfold executionWord
  rw [hshift, Nat.mod_eq_of_lt h, ← hshift]
  exact (Nat.shiftLeft_add_eq_or_of_lt (show st.code < 2 ^ EXECUTION_STATE_BITS by
    change st.code < 4
    omega) n).symm

/-- The transitions of `begin_draining` and of the last release. -/
def Advances (st st' : GenerationExecutionState) : Prop :=
  st' = st ∨ (st = Accepting ∧ (st' = Draining ∨ st' = Drained)) ∨ (st = Draining ∧ st' = Drained)

end GenerationExecutionState

namespace Execution

variable {w : Nat} {s s' : State} {l : Label} {pc pc' : Pc}

/-- There is room for another lease. -/
def Below (w : Nat) (s : State) (_ : Label) : Prop := s.leases < EXECUTION_MAX_INFLIGHT w

instance (w : Nat) (s : State) (l : Label) : Decidable (Below w s l) :=
  inferInstanceAs (Decidable (_ < _))

/-- What a thread remembers of the value it is about to exchange. -/
def Pc.Remembers (w : Nat) : Pc → Prop
  | acquireCas _ current | drainCas current => executionState current = some .Accepting
  | dropCas current => ∃ st, executionState current = some st ∧ st ≠ .Drained ∧
      executionInflight current ≠ 0
  | countCas value => value + 1 < 2 ^ w
  | panicked => False
  | _ => True

/-- The word encodes `st` and the leases; no thread has panicked. -/
structure Encodes (w : Nat) (s : State) (st : GenerationExecutionState) : Prop where
  word : s.word = 4 * s.leases + st.code
  service : s.serviceHandles = s.threads.countP (·.counted)
  drained : st = .Drained → s.leases = 0
  draining : st = .Draining → 0 < s.leases
  remembers : ∀ pc ∈ s.threads, pc.Remembers w
  begun : Pc.draining ∈ s.threads → st ≠ .Accepting

theorem next_lease_fits (h : s.leases < EXECUTION_MAX_INFLIGHT w) : 4 * s.leases + 4 < 2 ^ w := by
  have hpow : 0 < 2 ^ w := Nat.two_pow_pos w
  rw [execution_max_inflight_eq] at h
  omega

theorem counted_le_leases (s : State) : s.threads.countP (·.counted) ≤ s.leases := by
  refine List.countP_mono_left fun pc _ h => ?_
  cases pc <;> simp_all [Pc.counted, Pc.admitted]

theorem countP_moved {threads : List Pc} {n : Nat} (pc' : Pc) (p : Pc → Bool)
    (hn : threads[n]? = some pc) :
    (threads.set n pc').countP p + (if p pc then 1 else 0) =
      threads.countP p + (if p pc' then 1 else 0) := by
  obtain ⟨hlt, hget⟩ := List.getElem?_eq_some_iff.mp hn
  have hle : (if p pc then 1 else 0) ≤ threads.countP p := by
    split_ifs with hp
    · exact List.countP_pos_iff.mpr ⟨pc, hget ▸ List.getElem_mem hlt, hp⟩
    · exact Nat.zero_le _
  rw [List.countP_set hlt, hget]
  omega

/-! ## One thread moves -/

variable {st st' : GenerationExecutionState} {n : Nat}

theorem leases_positive (hn : s.threads[n]? = some pc)
    (hadmitted : pc.admitted = true) : 0 < s.leases :=
  List.countP_pos_iff.mpr ⟨pc, List.mem_of_getElem? hn, hadmitted⟩

theorem Encodes.moved {word handles : Nat} (he : Encodes w s st) (hn : s.threads[n]? = some pc)
    (hs' : s' = ⟨word, handles, s.threads.set n pc'⟩) (hadvances : st.Advances st')
    (hword : word = 4 * s'.leases + st'.code)
    (hservice : handles + (if pc.counted then 1 else 0) =
      s.serviceHandles + (if pc'.counted then 1 else 0))
    (hdrained : st' = .Drained → s'.leases = 0) (hdraining : st' = .Draining → 0 < s'.leases)
    (hremembers : pc'.Remembers w) (hbegun : pc' = .draining → st' ≠ .Accepting) :
    Encodes w s' st' := by
  subst hs'
  refine ⟨hword, ?_, hdrained, hdraining, fun q hq => ?_, fun hq => ?_⟩
  · have hmoved := countP_moved pc' (·.counted) hn
    have hold := he.service
    change handles = (s.threads.set n pc').countP _
    omega
  · rcases List.mem_or_eq_of_mem_set hq with hq | rfl
    · exact he.remembers q hq
    · exact hremembers
  · rcases List.mem_or_eq_of_mem_set hq with hq | heq
    · have hold := he.begun hq
      rintro rfl
      rcases hadvances with h | ⟨-, h | h⟩ | ⟨-, h⟩
      · exact hold h.symm
      all_goals contradiction
    · exact hbegun heq.symm

theorem leases_set (word handles : Nat) (hn : s.threads[n]? = some pc)
    (hadmitted : pc'.admitted = pc.admitted) :
    State.leases ⟨word, handles, s.threads.set n pc'⟩ = s.leases := by
  have hmoved := countP_moved pc' (·.admitted) hn
  rw [hadmitted] at hmoved
  change (s.threads.set n pc').countP _ = s.threads.countP _
  omega

theorem Encodes.quiet {handles : Nat} (he : Encodes w s st) (hn : s.threads[n]? = some pc)
    (hadmitted : pc'.admitted = pc.admitted)
    (hservice : handles + (if pc.counted then 1 else 0) =
      s.serviceHandles + (if pc'.counted then 1 else 0))
    (hremembers : pc'.Remembers w) (hbegun : pc' = .draining → st ≠ .Accepting) :
    Encodes w ⟨s.word, handles, s.threads.set n pc'⟩ st := by
  have hleases := leases_set s.word handles hn hadmitted
  refine he.moved hn rfl (.inl rfl) ?_ hservice ?_ ?_ hremembers hbegun
  · rw [hleases]
    exact he.word
  · rw [hleases]
    exact he.drained
  · rw [hleases]
    exact he.draining

theorem Encodes.acquireLoop (he : Encodes w s st) (hroom : s.leases < EXECUTION_MAX_INFLIGHT w)
    (b : Bool) : (acquireLoop w b s.word).Remembers w ∧ (acquireLoop w b s.word).admitted = false ∧
      (acquireLoop w b s.word).counted = false ∧ acquireLoop w b s.word ≠ .draining := by
  unfold Execution.acquireLoop
  have hstate : executionState s.word = some st := by
    rw [he.word, st.executionState_encoded]
  have hinflight : executionInflight s.word = s.leases := by
    rw [he.word, st.executionInflight_encoded]
  rw [hstate]
  cases st with
  | Accepting =>
    simp only [hinflight, if_pos hroom]
    exact ⟨hstate, rfl, rfl, by simp⟩
  | _ => exact ⟨trivial, rfl, rfl, by simp⟩

theorem Encodes.drainLoop (he : Encodes w s st) :
    (drainLoop s.word).Remembers w ∧ (drainLoop s.word).admitted = false ∧
      (drainLoop s.word).counted = false ∧ (drainLoop s.word = .draining → st ≠ .Accepting) := by
  unfold Execution.drainLoop
  have hstate : executionState s.word = some st := by
    rw [he.word, st.executionState_encoded]
  rw [hstate]
  cases st with
  | Accepting => exact ⟨hstate, rfl, rfl, by simp⟩
  | _ => exact ⟨trivial, rfl, rfl, by simp⟩

theorem Encodes.dropLoop (he : Encodes w s st) (hpositive : 0 < s.leases) :
    dropLoop s.word = .dropCas s.word ∧ (Pc.dropCas s.word).Remembers w := by
  unfold Execution.dropLoop
  have hstate : executionState s.word = some st := by
    rw [he.word, st.executionState_encoded]
  have hinflight : executionInflight s.word = s.leases := by
    rw [he.word, st.executionInflight_encoded]
  have hopen : st ≠ .Drained := fun h => by
    have := he.drained h
    omega
  have hne : s.leases ≠ 0 := Nat.ne_of_gt hpositive
  rw [hstate]
  simp only [hinflight, if_neg hne, if_neg hopen]
  exact ⟨trivial, st, hstate, hopen, hinflight ▸ hne⟩

theorem Encodes.acquires {b : Bool} (he : Encodes w s .Accepting)
    (hroom : s.leases < EXECUTION_MAX_INFLIGHT w)
    (hn : s.threads[n]? = some (.acquireCas b s.word))
    (hs' : s' = ⟨(s.word + EXECUTION_INFLIGHT_ONE) % 2 ^ w, s.serviceHandles,
      s.threads.set n (if b then .countLoad else .held false)⟩) :
    Encodes w s' .Accepting ∧ s'.leases = s.leases + 1 := by
  have hlimit := next_lease_fits hroom
  have hone : EXECUTION_INFLIGHT_ONE = 4 := rfl
  have hcode : GenerationExecutionState.Accepting.code = 0 := rfl
  have hword := he.word
  have hleases : s'.leases = s.leases + 1 := by
    have hmoved := countP_moved (if b then .countLoad else .held false) (·.admitted) hn
    rw [hs']
    change (s.threads.set n _).countP _ = s.threads.countP _ + 1
    cases b <;> simpa [Pc.admitted] using hmoved
  refine ⟨he.moved hn hs' (.inl rfl) ?_ ?_ (by simp) (by simp) ?_ ?_, hleases⟩
  · rw [hleases, Nat.mod_eq_of_lt (by omega)]
    omega
  · cases b <;> rfl
  · cases b <;> trivial
  · cases b <;> simp

theorem Encodes.release (he : Encodes w s st) (hroom : s.leases < EXECUTION_MAX_INFLIGHT w)
    (hn : s.threads[n]? = some (.dropCas s.word))
    (hs' : s' = ⟨dropNext w s.word, s.serviceHandles, s.threads.set n .released⟩) :
    ∃ st', st.Advances st' ∧ Encodes w s' st' ∧ s'.leases + 1 = s.leases ∧
      (st' = .Accepting ↔ st = .Accepting) := by
  have hlimit := next_lease_fits hroom
  have hpositive := leases_positive hn rfl
  have hopen : st ≠ .Drained := fun h => by
    have := he.drained h
    omega
  have hleases : s'.leases + 1 = s.leases := by
    have hmoved := countP_moved .released (·.admitted) hn
    rw [hs']
    change (s.threads.set n .released).countP _ + 1 = s.threads.countP _
    simpa [Pc.admitted] using hmoved
  have hstate : executionState s.word = some st := by
    rw [he.word, st.executionState_encoded]
  have hinflight : executionInflight s.word = s.leases := by
    rw [he.word, st.executionInflight_encoded]
  have hmask : s.word &&& EXECUTION_STATE_MASK = st.code := by
    have := st.code_lt
    rw [state_mask_mod, he.word]
    omega
  have hnext : ∀ st' : GenerationExecutionState,
      (if executionState s.word = some .Draining ∧ executionInflight s.word - 1 = 0 then
        EXECUTION_DRAINED else s.word &&& EXECUTION_STATE_MASK) = st'.code →
      dropNext w s.word = 4 * s'.leases + st'.code := fun st' h => by
    unfold dropNext
    simp only [h]
    rw [hinflight, show s.leases - 1 = s'.leases by omega]
    exact st'.executionWord_encoded (by omega)
  -- the last release of a draining generation leaves it drained
  by_cases hlast : st = .Draining ∧ s'.leases = 0
  · obtain ⟨rfl, hzero⟩ := hlast
    refine ⟨.Drained, .inr (.inr ⟨rfl, rfl⟩), he.moved hn hs' (.inr (.inr ⟨rfl, rfl⟩))
      (hnext .Drained ?_) rfl (fun _ => hzero) (by simp) trivial (by simp), hleases, by simp⟩
    rw [if_pos ⟨hstate, by omega⟩]
    rfl
  · refine ⟨st, .inl rfl, he.moved hn hs' (.inl rfl) (hnext st ?_) rfl (fun h => absurd h hopen)
      (fun h => ?_) trivial (by simp), hleases, Iff.rfl⟩
    · rw [if_neg, hmask]
      rintro ⟨h, hzero⟩
      rw [hstate] at h
      exact hlast ⟨Option.some.inj h, by omega⟩
    · have : s'.leases ≠ 0 := fun hzero => hlast ⟨h, hzero⟩
      omega

theorem Encodes.drain (he : Encodes w s .Accepting) (hroom : s.leases < EXECUTION_MAX_INFLIGHT w)
    (hn : s.threads[n]? = some (.drainCas s.word))
    (hs' : s' = ⟨drainNext w s.word, s.serviceHandles, s.threads.set n .draining⟩) :
    ∃ st', st' ≠ .Accepting ∧ Encodes w s' st' ∧ s'.leases = s.leases := by
  have hlimit := next_lease_fits hroom
  have hleases : s'.leases = s.leases := by
    rw [hs']
    exact leases_set _ _ hn rfl
  have hinflight : executionInflight s.word = s.leases := by
    rw [he.word, GenerationExecutionState.Accepting.executionInflight_encoded]
  by_cases hzero : s.leases = 0
  · refine ⟨.Drained, by simp, he.moved hn hs' (.inr (.inl ⟨rfl, .inr rfl⟩)) ?_ rfl
      (fun _ => hleases.trans hzero) (by simp) trivial (by simp), hleases⟩
    unfold drainNext
    rw [hinflight, if_pos hzero, hleases, hzero]
    exact GenerationExecutionState.Drained.executionWord_encoded (Nat.two_pow_pos w)
  · refine ⟨.Draining, by simp, he.moved hn hs' (.inr (.inl ⟨rfl, .inl rfl⟩)) ?_ rfl
      (by simp) (fun _ => by omega) trivial (by simp), hleases⟩
    unfold drainNext
    rw [hinflight, if_neg hzero, hleases]
    exact GenerationExecutionState.Draining.executionWord_encoded (by omega)

/-! ## One atomic operation -/

/-- Thread `n` holds a lease. -/
def State.Holds (s : State) (n : Nat) : Prop := (s.threads[n]?).any (·.admitted) = true

theorem holds_set {m : Nat} {s s' : State} (hn : s.threads[n]? = some pc)
    (hs' : s'.threads = s.threads.set n pc') (hadmitted : pc'.admitted = true → pc.admitted = true)
    (h : s'.Holds m) : s.Holds m := by
  unfold State.Holds at h ⊢
  rw [hs', List.getElem?_set] at h
  split_ifs at h with hm hlt
  · subst hm
    rw [hn]
    exact hadmitted h
  · contradiction
  · exact h

/-- What one atomic operation does to the decoded state. -/
structure Stays (w : Nat) (s s' : State) (st st' : GenerationExecutionState) : Prop where
  advances : st.Advances st'
  encodes : Encodes w s' st'
  late : st ≠ .Accepting → ∀ m, s'.Holds m → s.Holds m
  record : (st' = st ∧ s'.leases = s.leases) ∨
    (st = .Accepting ∧ st' = .Accepting ∧ s'.leases = s.leases + 1) ∨
    (s'.leases + 1 = s.leases ∧ (st' = .Accepting ↔ st = .Accepting)) ∨
    (st' ≠ .Accepting ∧ s'.leases = s.leases)

theorem Encodes.called (he : Encodes w s st) (hpc : pc = .drainLoad ∨ ∃ b, pc = .acquireLoad b)
    (hs' : s' = { s with threads := s.threads ++ [pc] }) : Stays w s s' st st := by
  have hidle : pc.admitted = false ∧ pc.counted = false ∧ pc.Remembers w ∧ pc ≠ .draining := by
    rcases hpc with rfl | ⟨b, rfl⟩ <;> exact ⟨rfl, rfl, trivial, by simp⟩
  have hleases : s'.leases = s.leases := by
    rw [hs']
    simp [State.leases, hidle.1]
  subst hs'
  refine ⟨.inl rfl, ⟨?_, ?_, ?_, ?_, fun q hq => ?_, fun hq => ?_⟩, fun _ m hm => ?_,
    .inl ⟨rfl, hleases⟩⟩
  · rw [hleases]
    exact he.word
  · simp [he.service, hidle.2.1]
  · rw [hleases]
    exact he.drained
  · rw [hleases]
    exact he.draining
  · rcases List.mem_append.mp hq with hq | hq
    · exact he.remembers q hq
    · rw [List.mem_singleton.mp hq]
      exact hidle.2.2.1
  · rcases List.mem_append.mp hq with hq | hq
    · exact he.begun hq
    · exact absurd (List.mem_singleton.mp hq).symm hidle.2.2.2
  · unfold State.Holds at hm ⊢
    rw [List.getElem?_append] at hm
    split_ifs at hm with hlt
    · exact hm
    · obtain ⟨q, hq, hadmitted⟩ := (Option.any_eq_true _ _).mp hm
      rw [List.mem_singleton.mp (List.mem_of_getElem? hq), hidle.1] at hadmitted
      contradiction

theorem Encodes.looked {handles : Nat} (he : Encodes w s st) (hn : s.threads[n]? = some pc)
    (hadmitted : pc'.admitted = pc.admitted)
    (hservice : handles + (if pc.counted then 1 else 0) =
      s.serviceHandles + (if pc'.counted then 1 else 0))
    (hremembers : pc'.Remembers w) (hbegun : pc' = .draining → st ≠ .Accepting) :
    Stays w s ⟨s.word, handles, s.threads.set n pc'⟩ st st where
  advances := .inl rfl
  encodes := he.quiet hn hadmitted hservice hremembers hbegun
  late := fun _ _ hm => holds_set hn rfl (fun h => hadmitted ▸ h) hm
  record := .inl ⟨rfl, leases_set _ _ hn hadmitted⟩

theorem atomicOp_stays {b : Bool} {q : State × Pc} (he : Encodes w s st)
    (hroom : s.leases < EXECUTION_MAX_INFLIGHT w) (hn : s.threads[n]? = some pc)
    (h : atomicOp w s b pc = some q) :
    ∃ st', Stays w s { q.1 with threads := q.1.threads.set n q.2 } st st' := by
  have hremembers := he.remembers pc (List.mem_of_getElem? hn)
  have hlimit := next_lease_fits hroom
  cases pc with
  | acquireLoad service =>
    cases h
    obtain ⟨hrem, hadm, hcnt, hne⟩ := he.acquireLoop hroom service
    exact ⟨st, he.looked hn hadm (by rw [hcnt]; rfl) hrem fun h => absurd h hne⟩
  | acquireCas service current =>
    simp only [atomicOp] at h
    split_ifs at h with hexchange hservice <;> cases h
    · obtain ⟨rfl, -⟩ := hexchange
      have hstate : executionState s.word = some .Accepting := hremembers
      rw [he.word, st.executionState_encoded] at hstate
      obtain rfl := Option.some.inj hstate
      obtain rfl := hservice
      obtain ⟨hencodes, hleases⟩ := he.acquires hroom hn rfl
      exact ⟨.Accepting, .inl rfl, hencodes, fun h => absurd rfl h, .inr (.inl ⟨rfl, rfl, hleases⟩)⟩
    · obtain ⟨rfl, -⟩ := hexchange
      have hstate : executionState s.word = some .Accepting := hremembers
      rw [he.word, st.executionState_encoded] at hstate
      obtain rfl := Option.some.inj hstate
      obtain rfl : service = false := by simpa using hservice
      obtain ⟨hencodes, hleases⟩ := he.acquires hroom hn rfl
      exact ⟨.Accepting, .inl rfl, hencodes, fun h => absurd rfl h, .inr (.inl ⟨rfl, rfl, hleases⟩)⟩
    · obtain ⟨hrem, hadm, hcnt, hne⟩ := he.acquireLoop hroom service
      exact ⟨st, he.looked hn hadm (by rw [hcnt]; rfl) hrem fun h => absurd h hne⟩
  | countLoad =>
    cases h
    have hcounted := counted_le_leases s
    have hfits : s.serviceHandles + 1 < 2 ^ w := by
      rw [he.service]
      omega
    refine ⟨st, ?_⟩
    simp only [countLoop, if_pos hfits]
    exact he.looked hn rfl rfl hfits (by simp)
  | countCas value =>
    simp only [atomicOp] at h
    split_ifs at h with hexchange <;> cases h
    · obtain ⟨rfl, -⟩ := hexchange
      exact ⟨st, he.looked hn rfl rfl trivial (by simp)⟩
    · have hcounted := counted_le_leases s
      have hfits : s.serviceHandles + 1 < 2 ^ w := by
        rw [he.service]
        omega
      refine ⟨st, ?_⟩
      simp only [countLoop, if_pos hfits]
      exact he.looked hn rfl rfl hfits (by simp)
  | dropService =>
    cases h
    have hcounted := counted_le_leases s
    have hone : 0 < s.serviceHandles := by
      rw [he.service]
      exact List.countP_pos_iff.mpr ⟨_, List.mem_of_getElem? hn, rfl⟩
    have hless : (s.serviceHandles + (2 ^ w - 1)) % 2 ^ w = s.serviceHandles - 1 := by
      have hle : s.serviceHandles ≤ s.leases := he.service ▸ hcounted
      rw [show s.serviceHandles + (2 ^ w - 1) = s.serviceHandles - 1 + 2 ^ w by omega,
        Nat.add_mod_right, Nat.mod_eq_of_lt (by omega)]
    simp only [if_neg (Nat.ne_of_gt hone), hless]
    refine ⟨st, he.looked hn rfl ?_ trivial (by simp)⟩
    simp only [Pc.counted, if_true, Bool.false_eq_true, if_false]
    omega
  | dropLoad =>
    cases h
    obtain ⟨hloop, hrem⟩ := he.dropLoop (leases_positive hn rfl)
    refine ⟨st, ?_⟩
    simp only [hloop]
    exact he.looked hn rfl rfl hrem (by simp)
  | dropCas current =>
    simp only [atomicOp] at h
    split_ifs at h with hexchange <;> cases h
    · obtain ⟨rfl, -⟩ := hexchange
      obtain ⟨st', hadvances, hencodes, hleases, haccepting⟩ := he.release hroom hn rfl
      exact ⟨st', hadvances, hencodes, fun _ _ hm => holds_set hn rfl (fun _ => rfl) hm,
        .inr (.inr (.inl ⟨hleases, haccepting⟩))⟩
    · obtain ⟨hloop, hrem⟩ := he.dropLoop (leases_positive hn rfl)
      refine ⟨st, ?_⟩
      simp only [hloop]
      exact he.looked hn rfl rfl hrem (by simp)
  | drainLoad =>
    cases h
    obtain ⟨hrem, hadm, hcnt, hbegun⟩ := he.drainLoop
    exact ⟨st, he.looked hn hadm (by rw [hcnt]; rfl) hrem hbegun⟩
  | drainCas current =>
    simp only [atomicOp] at h
    split_ifs at h with hexchange <;> cases h
    · obtain ⟨rfl, -⟩ := hexchange
      have hstate : executionState s.word = some .Accepting := hremembers
      rw [he.word, st.executionState_encoded] at hstate
      obtain rfl := Option.some.inj hstate
      obtain ⟨st', hne, hencodes, hleases⟩ := he.drain hroom hn rfl
      refine ⟨st', ?_, hencodes, fun h => absurd rfl h, .inr (.inr (.inr ⟨hne, hleases⟩))⟩
      cases st' with
      | Accepting => contradiction
      | Draining => exact .inr (.inl ⟨rfl, .inl rfl⟩)
      | Drained => exact .inr (.inl ⟨rfl, .inr rfl⟩)
    · obtain ⟨hrem, hadm, hcnt, hbegun⟩ := he.drainLoop
      exact ⟨st, he.looked hn hadm (by rw [hcnt]; rfl) hrem hbegun⟩
  | _ => contradiction

/-- **One atomic operation of one thread.** -/
theorem encodes_step (he : Encodes w s st) (hroom : Below w s l) (h : step w s l = some s') :
    ∃ st', Stays w s s' st st' := by
  cases l with
  | tryAcquire b =>
    cases h
    exact ⟨st, he.called (.inr ⟨b, rfl⟩) rfl⟩
  | beginDraining =>
    cases h
    exact ⟨st, he.called (.inl rfl) rfl⟩
  | drop n =>
    simp only [step] at h
    split at h <;> try contradiction
    rename_i b hn
    cases h
    cases b
    · exact ⟨st, he.looked hn rfl rfl trivial (by simp)⟩
    · exact ⟨st, he.looked hn rfl rfl trivial (by simp)⟩
  | atomic n b =>
    simp only [step] at h
    obtain ⟨pc, hn, h⟩ := Option.bind_eq_some_iff.mp h
    obtain ⟨q, hq, rfl⟩ := Option.map_eq_some_iff.mp h
    exact atomicOp_stays he hroom hn hq

theorem encodes_default (w : Nat) : Encodes w .default .Accepting where
  word := rfl
  service := rfl
  drained := by simp
  draining := by simp
  remembers := by simp [State.default]
  begun := by simp [State.default]

theorem encodes_reach (h : Reach (step w) (Below w) .default s) : ∃ st, Encodes w s st :=
  h.invariant (I := fun s => ∃ st, Encodes w s st) ⟨.Accepting, encodes_default w⟩
    fun _ _ _ ⟨_, he⟩ hroom hs => (encodes_step he hroom hs).imp fun _ hstays => hstays.encodes

/-- Once the state has left `Accepting`, no run admits another lease. -/
theorem late_reach {s₀ : State} (he : Encodes w s₀ st) (hlate : st ≠ .Accepting)
    (h : Reach (step w) (Below w) s₀ s) : ∀ m, s.Holds m → s₀.Holds m := by
  have hall : ∃ st, Encodes w s st ∧ st ≠ .Accepting ∧ ∀ m, s.Holds m → s₀.Holds m := by
    refine h.invariant (I := fun s => ∃ st, Encodes w s st ∧ st ≠ .Accepting ∧
      ∀ m, s.Holds m → s₀.Holds m) ⟨st, he, hlate, fun _ hm => hm⟩ ?_
    rintro t a u ⟨st, he, hlate, hheld⟩ hroom hs
    obtain ⟨st', hadvances, hencodes, hnew, -⟩ := encodes_step he hroom hs
    refine ⟨st', hencodes, ?_, fun m hm => hheld m (hnew hlate m hm)⟩
    rintro rfl
    rcases hadvances with h | ⟨-, h | h⟩ | ⟨-, h⟩
    · exact hlate h.symm
    all_goals contradiction
  obtain ⟨-, -, -, hheld⟩ := hall
  exact hheld

/-- What the word of a generation says in a reachable state. -/
structure Coherent (s : State) (st : GenerationExecutionState) : Prop where
  decoded : executionState s.word = some st
  inflight : executionInflight s.word = s.leases
  drained : st = .Drained → executionInflight s.word = 0
  draining : st = .Draining → 0 < executionInflight s.word
  service : s.serviceHandles ≤ executionInflight s.word
  sound : Pc.panicked ∉ s.threads
  begun : Pc.draining ∈ s.threads → st ≠ .Accepting

theorem Encodes.coherent (he : Encodes w s st) : Coherent s st where
  decoded := by rw [he.word, st.executionState_encoded]
  inflight := by rw [he.word, st.executionInflight_encoded]
  drained := fun h => by rw [he.word, st.executionInflight_encoded, he.drained h]
  draining := fun h => by
    rw [he.word, st.executionInflight_encoded]
    exact he.draining h
  service := by
    rw [he.word, st.executionInflight_encoded, he.service]
    exact counted_le_leases s
  sound := fun h => he.remembers _ h
  begun := he.begun

/-- **The execution word.** In every state that any number of threads reach, with fewer than
`EXECUTION_MAX_INFLIGHT` leases, the word decodes to one of the three states with the number of
leases that were admitted and not released; every atomic operation advances the state; and once the
state has left `Accepting` no lease is admitted any more. -/
theorem execution_word_coherent (w : Nat) (h : Reach (step w) (Below w) .default s) :
    ∃ st, Coherent s st ∧
      (∀ l s', Below w s l → step w s l = some s' →
        ∃ st', Coherent s' st' ∧ st.Advances st') ∧
      (st ≠ .Accepting → ∀ s', Reach (step w) (Below w) s s' → ∀ n, s'.Holds n → s.Holds n) := by
  obtain ⟨st, he⟩ := encodes_reach h
  refine ⟨st, he.coherent, fun l s' hroom hs => ?_, fun hlate s' hr => late_reach he hlate hr⟩
  obtain ⟨st', hadvances, hencodes, -, -⟩ := encodes_step he hroom hs
  exact ⟨st', hencodes.coherent, hadvances⟩

/-- A service lease that is dropped while another thread drains. -/
def racingDrop : List Label :=
  [.tryAcquire true, .atomic 0 false, .atomic 0 false, .atomic 0 false, .atomic 0 false,
    .beginDraining, .atomic 1 false, .drop 0, .atomic 0 false, .atomic 0 false, .atomic 1 true,
    .atomic 1 false, .atomic 0 false, .atomic 0 false]

theorem execution_word_coherent_drop :
    ∃ s, Reach (step 64) (Below 64) .default s ∧ Coherent s .Drained ∧
      ∀ s', Reach (step 64) (Below 64) s s' → ∀ n, s'.Holds n → s.Holds n := by
  obtain ⟨s, hrun, hword⟩ : ∃ s, runIf (step 64) (Below 64) .default racingDrop = some s ∧
      s.word = EXECUTION_DRAINED := ⟨_, rfl, rfl⟩
  have hreach := reach_of_runIf hrun
  obtain ⟨st, hcoherent, -, hlate⟩ := execution_word_coherent 64 hreach
  have hst : st = .Drained := by
    have hdecoded := hcoherent.decoded
    rw [hword] at hdecoded
    exact (Option.some.inj hdecoded).symm
  subst hst
  exact ⟨s, hreach, hcoherent, hlate (by simp)⟩

/-! ## The record that the word stands for -/

/-- The decoded word, as the Fiber record keeps it. -/
def State.execution (s : State) : GenerationExecution :=
  ⟨executionState s.word == some .Accepting, executionInflight s.word⟩

/-- **The word refines the record**: an atomic operation leaves the decoded record alone, or takes a
lease, drops one, or begins draining. -/
theorem step_refines (he : Encodes w s st) (hroom : Below w s l) (h : step w s l = some s') :
    s'.execution = s.execution ∨ s.execution.tryAcquire = some s'.execution ∨
      s.execution.dropInflight = some s'.execution ∨
      s'.execution = s.execution.beginDraining := by
  have hdecode : ∀ {s : State} {st}, Encodes w s st →
      s.execution = ⟨some st == some .Accepting, s.leases⟩ := fun {s st} he => by
    unfold State.execution
    rw [he.word, st.executionState_encoded, st.executionInflight_encoded]
  obtain ⟨st', -, hencodes, -, hrecord⟩ := encodes_step he hroom h
  rw [hdecode he, hdecode hencodes]
  rcases hrecord with ⟨rfl, hsame⟩ | ⟨rfl, rfl, hmore⟩ | ⟨hless, haccepting⟩ | ⟨hne, hsame⟩
  · exact .inl (by rw [hsame])
  · refine .inr (.inl ?_)
    simp [GenerationExecution.tryAcquire, hmore]
  · refine .inr (.inr (.inl ?_))
    have hpositive : s.leases ≠ 0 := by omega
    have hpred : s.leases - 1 = s'.leases := by omega
    simp [GenerationExecution.dropInflight, hpositive, hpred, haccepting]
  · refine .inr (.inr (.inr ?_))
    simp [GenerationExecution.beginDraining, hne, hsame]

end Execution

end Cordis
