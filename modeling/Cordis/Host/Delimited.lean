import Cordis.Host.RoundTrip

/-!
# Frames delimit themselves

The decoder needs every byte of an accepted payload and reads none after it: on a truncated or padded
payload it reports a protocol violation, before any check of a size or of the text can fail.
-/

namespace Cordis.Protocol

open Wire

/-- The error of a payload that does not have the format, as opposed to one that is too large. -/
def HostError.IsViolation (e : HostError) : Prop := e.kind = .ProtocolViolation

/-- The reader ends where the format says, and a shorter input is a protocol violation. -/
abbrev FrameDelimited {α : Type} (d : Decoder α) : Prop := Delimited HostError.IsViolation d

/-! ## Fields -/

theorem take_delimited (count : Nat) : FrameDelimited (Decoder.take count) := by
  intro inp bs rest h
  unfold Decoder.take at h
  split at h
  · rename_i hcount
    cases h
    refine ⟨inp.take count, (List.take_append_drop count inp).symm, ?_, ?_⟩
    · intro rest
      have hlen : (inp.take count).length = count := List.length_take_of_le hcount
      have hfits : count ≤ (inp.take count ++ rest).length := by
        rw [List.length_append, hlen]
        omega
      rw [Decoder.take, if_pos hfits, List.take_left' hlen, List.drop_left' hlen]
    · intro p y ys hsplit
      have hlen := congrArg List.length hsplit
      rw [List.length_take_of_le hcount, List.length_append, List.length_cons] at hlen
      refine ⟨violation "truncated field", ?_, rfl⟩
      rw [Decoder.take, if_neg (by omega)]
  · cases h

theorem u8_delimited : FrameDelimited Decoder.u8 := (take_delimited 1).map _

theorem u16_delimited : FrameDelimited Decoder.u16 := (take_delimited 2).map _

theorem u32_delimited : FrameDelimited Decoder.u32 := (take_delimited 4).map _

theorem u64_delimited : FrameDelimited Decoder.u64 := (take_delimited 8).map _

/-- The limit is compared with the length field alone, which a run that goes on has passed. -/
theorem bytes_delimited (semanticLimit : Nat) : FrameDelimited (Decoder.bytes semanticLimit) := by
  apply u32_delimited.bind
  intro len
  exact .ite (.throw _) (take_delimited len)

theorem string_delimited (semanticLimit : Nat) : FrameDelimited (Decoder.string semanticLimit) := by
  apply (bytes_delimited semanticLimit).bind
  intro bytes
  cases ofUtf8? bytes with
  | none => exact .throw _
  | some value => exact .pure value

theorem limits_delimited : FrameDelimited Decoder.limits := by
  apply u32_delimited.bind
  intro frame
  apply u32_delimited.bind
  intro artifact
  apply u32_delimited.bind
  intro request
  apply u32_delimited.bind
  intro response
  exact u32_delimited.map _

theorem decodeKey_delimited : FrameDelimited decodeKey := by
  apply (string_delimited _).bind
  intro namespaceName
  apply (string_delimited _).bind
  intro name
  exact u32_delimited.map _

theorem decodeKeys_delimited : FrameDelimited decodeKeys := by
  apply u32_delimited.bind
  intro count
  exact .ite (.throw _) (decodeKey_delimited.many count)

theorem decodeDeclaration_delimited : FrameDelimited decodeDeclaration := by
  apply u64_delimited.bind
  intro route
  apply (string_delimited _).bind
  intro namespaceName
  apply (string_delimited _).bind
  intro name
  exact u32_delimited.map _

theorem decodeInvocationDeclarations_delimited : FrameDelimited decodeInvocationDeclarations := by
  apply u32_delimited.bind
  intro count
  exact .ite (.throw _) (decodeDeclaration_delimited.many count)

theorem decodeDependencyPolicy_delimited (code : UInt8) :
    FrameDelimited (decodeDependencyPolicy code) := by
  unfold decodeDependencyPolicy
  split
  · exact .pure _
  · exact .pure _
  · exact .throw _

theorem decodeDescriptor_delimited : FrameDelimited decodeDescriptor := by
  apply (string_delimited _).bind
  intro name
  apply decodeKeys_delimited.bind
  intro dependencies
  apply decodeKeys_delimited.bind
  intro provisions
  apply u8_delimited.bind
  intro policy
  apply (decodeDependencyPolicy_delimited policy).bind
  intro dependencyPolicy
  exact u64_delimited.map _

theorem decodeDomainError_delimited (payloadLimit : Nat) :
    FrameDelimited (decodeDomainError payloadLimit) := by
  apply (string_delimited _).bind
  intro code
  apply (string_delimited _).bind
  intro message
  apply u8_delimited.bind
  intro present
  apply Delimited.ite
  · apply (string_delimited _).bind
    intro format
    exact (bytes_delimited payloadLimit).map _
  · exact .pure _

theorem decodeHostKind_delimited (code : UInt8) : FrameDelimited (decodeHostKind code) := by
  unfold decodeHostKind
  split <;> first | exact .pure _ | exact .throw _

theorem decodeHostError_delimited : FrameDelimited decodeHostError := by
  apply u8_delimited.bind
  intro code
  apply (decodeHostKind_delimited code).bind
  intro kind
  exact (string_delimited _).map _

theorem decodeFailure_delimited (semantic : Limits) (kind : UInt8) :
    FrameDelimited (decodeFailure semantic kind) := by
  apply Delimited.ite
  · exact decodeHostError_delimited.map _
  · apply Delimited.ite
    · exact (decodeDomainError_delimited semantic.response).map _
    · exact .throw _

theorem decodeOutcome_delimited (semantic : Limits) (outcome : UInt8) :
    FrameDelimited (decodeOutcome semantic outcome) := by
  unfold decodeOutcome
  split
  · apply (string_delimited _).bind
    intro format
    exact (bytes_delimited semantic.response).map _
  · exact (decodeDomainError_delimited semantic.response).map _
  · exact decodeHostError_delimited.map _
  · exact .throw _

/-! ## Messages -/

theorem handshake_delimited (message : UInt16 → UInt16 → UInt64 → UInt64 → Limits → Message) :
    FrameDelimited (do
      let major ← Decoder.u16
      let minor ← Decoder.u16
      let supportedFeatures ← Decoder.u64
      let requiredFeatures ← Decoder.u64
      let limits ← Decoder.limits
      pure (message major minor supportedFeatures requiredFeatures limits)) := by
  apply u16_delimited.bind
  intro major
  apply u16_delimited.bind
  intro minor
  apply u64_delimited.bind
  intro supportedFeatures
  apply u64_delimited.bind
  intro requiredFeatures
  exact limits_delimited.map _

theorem decodeFields_delimited (semantic : Limits) (tag : UInt8) (id : UInt64) :
    FrameDelimited (decodeFields semantic tag id) := by
  unfold decodeFields
  split
  · exact handshake_delimited (.Hello id)
  · exact handshake_delimited (.HelloAck id)
  · -- `Load`
    apply (string_delimited _).bind
    intro format
    apply u64_delimited.bind
    intro revision
    exact (bytes_delimited semantic.artifact).map _
  · -- `Loaded`
    apply u64_delimited.bind
    intro route
    exact decodeDescriptor_delimited.map _
  · exact u64_delimited.map _
  · exact decodeInvocationDeclarations_delimited.map _
  · exact u64_delimited.map _
  · exact .pure _
  · exact .pure _
  · exact .pure _
  · -- `Failure`
    apply u8_delimited.bind
    intro kind
    exact (decodeFailure_delimited semantic kind).map _
  · -- `Invoke`
    apply u64_delimited.bind
    intro route
    apply (string_delimited _).bind
    intro format
    apply (bytes_delimited semantic.request).bind
    intro bytes
    exact u64_delimited.map _
  · -- `InvokeResult`
    apply u8_delimited.bind
    intro outcome
    exact (decodeOutcome_delimited semantic outcome).map _
  · exact .pure _
  · exact .throw _

theorem decodeBody_delimited (semantic : Limits) : FrameDelimited (decodeBody semantic) := by
  apply u8_delimited.bind
  intro tag
  apply u64_delimited.bind
  intro id
  exact decodeFields_delimited semantic tag id

/-! ## Wider limits -/

/-- The limits that the decoder consults are nowhere smaller. -/
structure Limits.Within (l l' : Limits) : Prop where
  artifact : l.artifact ≤ l'.artifact
  request : l.request ≤ l'.request
  response : l.response ≤ l'.response

/-- The wider of two limits, field by field. -/
def Limits.join (l l' : Limits) : Limits :=
  ⟨max l.frame l'.frame, max l.artifact l'.artifact, max l.request l'.request,
    max l.response l'.response, max l.inflight l'.inflight⟩

theorem Limits.within_join_left (l l' : Limits) : l.Within (l.join l') :=
  ⟨Nat.le_max_left .., Nat.le_max_left .., Nat.le_max_left ..⟩

theorem Limits.within_join_right (l l' : Limits) : l'.Within (l.join l') :=
  ⟨Nat.le_max_right .., Nat.le_max_right .., Nat.le_max_right ..⟩

theorem bytes_extends {limit limit' : Nat} (h : limit ≤ limit') :
    Extends (Decoder.bytes limit) (Decoder.bytes limit') := by
  apply Extends.after
  intro len inp bs rest hread
  split at hread
  · cases hread
  · rename_i hlen
    rw [if_neg (by omega)]
    exact hread

theorem decodeDomainError_extends {limit limit' : Nat} (h : limit ≤ limit') :
    Extends (decodeDomainError limit) (decodeDomainError limit') := by
  apply Extends.after
  intro code
  apply Extends.after
  intro message
  apply Extends.after
  intro present
  split
  · apply Extends.after
    intro format
    exact (bytes_extends h).bind fun _ => .refl _
  · exact .refl _

variable {semantic semantic' : Limits}

theorem decodeFailure_extends (h : semantic.Within semantic') (kind : UInt8) :
    Extends (decodeFailure semantic kind) (decodeFailure semantic' kind) := by
  unfold decodeFailure
  split
  · exact .refl _
  · split
    · exact (decodeDomainError_extends h.response).bind fun _ => .refl _
    · exact .refl _

theorem decodeOutcome_extends (h : semantic.Within semantic') (outcome : UInt8) :
    Extends (decodeOutcome semantic outcome) (decodeOutcome semantic' outcome) := by
  unfold decodeOutcome
  split
  · apply Extends.after
    intro format
    exact (bytes_extends h.response).bind fun _ => .refl _
  · exact (decodeDomainError_extends h.response).bind fun _ => .refl _
  · exact .refl _
  · exact .refl _

theorem decodeFields_extends (h : semantic.Within semantic') (tag : UInt8) (id : UInt64) :
    Extends (decodeFields semantic tag id) (decodeFields semantic' tag id) := by
  unfold decodeFields
  split <;> try exact .refl _
  · -- `Load`
    apply Extends.after
    intro format
    apply Extends.after
    intro revision
    exact (bytes_extends h.artifact).bind fun _ => .refl _
  · -- `Failure`
    apply Extends.after
    intro kind
    exact (decodeFailure_extends h kind).bind fun _ => .refl _
  · -- `Invoke`
    apply Extends.after
    intro route
    apply Extends.after
    intro format
    exact (bytes_extends h.request).bind fun _ => .refl _
  · -- `InvokeResult`
    apply Extends.after
    intro outcome
    exact (decodeOutcome_extends h outcome).bind fun _ => .refl _

theorem decode_widens (h : semantic.Within semantic') {payload : List UInt8} {m : Message}
    (hok : decode payload semantic = .ok m) : decode payload semantic' = .ok m := by
  have hbody : Extends (decodeBody semantic) (decodeBody semantic') := by
    apply Extends.after
    intro tag
    apply Extends.after
    intro id
    exact decodeFields_extends h tag id
  exact decode_eq_ok.mpr (hbody payload m [] (decode_eq_ok.mp hok))

/-! ## Truncated and padded frames -/

/-- A payload that begins with an accepted one and goes on is left with trailing data. -/
theorem decode_padded {payload c : List UInt8} {m : Message} (h : decode payload semantic = .ok m)
    (hc : c ≠ []) : ∃ e, decode (payload ++ c) semantic = .error e ∧ e.IsViolation := by
  obtain ⟨xs, hxs, hread, -⟩ := decodeBody_delimited semantic payload m [] (decode_eq_ok.mp h)
  rw [List.append_nil] at hxs
  subst hxs
  refine ⟨violation "trailing frame data", ?_, rfl⟩
  have hbody : decodeBody semantic (payload ++ c) = .ok (m, c) := hread c
  have hfinish : Decoder.finish c = .error (violation "trailing frame data") := by
    rw [Decoder.finish, if_neg hc]
  rw [decode, decodeMessage_eq, bind_of_ok hbody, bind_of_error hfinish]

theorem decode_truncated {payload p : List UInt8} {m : Message}
    (h : decode payload semantic = .ok m) (hp : p <+: payload) (hne : p ≠ payload) :
    ∃ e, decode p semantic = .error e ∧ e.IsViolation := by
  obtain ⟨xs, hxs, -, hshort⟩ := decodeBody_delimited semantic payload m [] (decode_eq_ok.mp h)
  rw [List.append_nil] at hxs
  subst hxs
  obtain ⟨q, hq⟩ := hp
  cases q with
  | nil => exact absurd (by simpa using hq) hne
  | cons y ys =>
    obtain ⟨e, he, hbad⟩ := hshort p y ys hq.symm
    refine ⟨e, ?_, hbad⟩
    rw [decode, decodeMessage_eq, bind_of_error he]

/-- Every truncation and every padding of an accepted payload is a protocol violation, and no payload
that is accepted, under the same limits or others, is a proper prefix of another one. -/
theorem frames_self_delimiting (payload : List UInt8) (semantic : Limits) (m : Message)
    (h : decode payload semantic = .ok m) :
    (∀ p, p <+: payload → p ≠ payload →
        ∃ e, decode p semantic = .error e ∧ e.kind = .ProtocolViolation) ∧
      (∀ c, c ≠ [] → ∃ e, decode (payload ++ c) semantic = .error e ∧ e.kind = .ProtocolViolation) ∧
      ∀ semantic' payload' m', decode payload' semantic' = .ok m' → payload <+: payload' →
        payload' = payload := by
  refine ⟨fun p hp hne => decode_truncated h hp hne, fun c hc => decode_padded h hc, ?_⟩
  intro semantic' payload' m' h' hp
  by_contra hne
  have hwide := decode_widens (semantic.within_join_right semantic') h'
  obtain ⟨e, he, -⟩ := decode_truncated hwide hp (Ne.symm hne)
  rw [decode_widens (semantic.within_join_left semantic') h] at he
  cases he

/-- On a frame with every optional field. -/
theorem frames_self_delimiting_details :
    ∃ payload, encode (.InvokeResult 7 (.RemoteDomain ⟨"a", "", some ("", [1, 2])⟩)) 64 = .ok payload ∧
      (∀ p, p <+: payload → p ≠ payload →
        ∃ e, decode p ⟨64, 8, 8, 8, 1⟩ = .error e ∧ e.kind = .ProtocolViolation) ∧
      ∀ c, c ≠ [] →
        ∃ e, decode (payload ++ c) ⟨64, 8, 8, 8, 1⟩ = .error e ∧ e.kind = .ProtocolViolation := by
  have hbounded : Message.Bounded ⟨64, 8, 8, 8, 1⟩
      (.InvokeResult 7 (.RemoteDomain ⟨"a", "", some ("", [1, 2])⟩)) := by
    decide
  obtain ⟨payload, henc⟩ : ∃ payload,
      encode (.InvokeResult 7 (.RemoteDomain ⟨"a", "", some ("", [1, 2])⟩)) 64 = .ok payload :=
    ⟨_, rfl⟩
  have h := frames_self_delimiting payload _ _ (decode_encode hbounded henc)
  exact ⟨payload, henc, h.1, h.2.1⟩

end Cordis.Protocol
