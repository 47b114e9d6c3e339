import Cordis.Host.Fields
import Mathlib.Tactic.FinCases

/-!
# Round trip of the wire stream

Whatever list of bounded messages the writer manages to put on the pipe, the reader takes off it again
message by message, and nothing is left over.
-/

namespace Cordis.Protocol

open Wire

/-- The bounds the decoder puts on a failure. -/
def WireFailure.Bounded (semantic : Limits) : WireFailure → Prop
  | .Host error => (utf8 error.message).length ≤ MAX_DESCRIPTOR_STRING
  | .Domain error => error.Bounded semantic.response

/-- The bounds the decoder puts on an outcome. -/
def InvokeOutcome.Bounded (semantic : Limits) : InvokeOutcome → Prop
  | .Success format bytes =>
    (utf8 format).length ≤ MAX_DESCRIPTOR_STRING ∧ bytes.length ≤ semantic.response
  | .RemoteDomain error => error.Bounded semantic.response
  | .HostFailure error => (utf8 error.message).length ≤ MAX_DESCRIPTOR_STRING

/-- Strings and lists are within the fixed bounds of the format, payloads within the reader's semantic
limits. -/
def Message.Bounded (semantic : Limits) : Message → Prop
  | .Load _ format _ payload =>
    (utf8 format).length ≤ MAX_DESCRIPTOR_STRING ∧ payload.length ≤ semantic.artifact
  | .Loaded _ _ descriptor => descriptor.Bounded
  | .Started _ invocations =>
    invocations.length ≤ MAX_INVOCATION_DECLARATIONS ∧ ∀ d ∈ invocations, d.key.Bounded
  | .Invoke _ _ format bytes _ =>
    (utf8 format).length ≤ MAX_DESCRIPTOR_STRING ∧ bytes.length ≤ semantic.request
  | .InvokeResult _ outcome => outcome.Bounded semantic
  | .Failure _ failure => failure.Bounded semantic
  | _ => True

instance (semantic : Limits) : (failure : WireFailure) → Decidable (failure.Bounded semantic)
  | .Host _ => inferInstanceAs (Decidable (_ ≤ _))
  | .Domain error => inferInstanceAs (Decidable (error.Bounded semantic.response))

instance (semantic : Limits) : (outcome : InvokeOutcome) → Decidable (outcome.Bounded semantic)
  | .Success .. => inferInstanceAs (Decidable (_ ∧ _))
  | .RemoteDomain error => inferInstanceAs (Decidable (error.Bounded semantic.response))
  | .HostFailure _ => inferInstanceAs (Decidable (_ ≤ _))

instance (semantic : Limits) : (m : Message) → Decidable (m.Bounded semantic)
  | .Load .. | .Invoke .. | .Started .. => inferInstanceAs (Decidable (_ ∧ _))
  | .Loaded _ _ descriptor => inferInstanceAs (Decidable descriptor.Bounded)
  | .InvokeResult _ outcome => inferInstanceAs (Decidable (outcome.Bounded semantic))
  | .Failure _ failure => inferInstanceAs (Decidable (failure.Bounded semantic))
  | .Hello .. | .HelloAck .. | .Start .. | .Cancel _ | .Dispose .. | .Disposed _ | .Shutdown _
  | .ShutdownAck _ => inferInstanceAs (Decidable True)

/-- `decode` before its check that nothing is left. -/
def decodeBody (semantic : Limits) : Decoder Message := do
  let tag ← Decoder.u8
  let id ← Decoder.u64
  decodeFields semantic tag id

theorem message_inverts {semantic : Limits} {m : Message} (h : m.Bounded semantic) :
    Inverts (encodeMessage m) (decodeBody semantic) m := by
  cases m with
  | Hello id major minor supportedFeatures requiredFeatures limits =>
    exact (u8_inverts 1).bind <| (u64_inverts id).bind <| (u16_inverts major).bind <|
      (u16_inverts minor).bind <| (u64_inverts supportedFeatures).bind <|
        (u64_inverts requiredFeatures).bind <| (limits_inverts limits).map _
  | HelloAck id major minor supportedFeatures requiredFeatures limits =>
    exact (u8_inverts 2).bind <| (u64_inverts id).bind <| (u16_inverts major).bind <|
      (u16_inverts minor).bind <| (u64_inverts supportedFeatures).bind <|
        (u64_inverts requiredFeatures).bind <| (limits_inverts limits).map _
  | Load id format revision payload =>
    exact (u8_inverts 3).bind <| (u64_inverts id).bind <| (string_inverts h.1).bind <|
      (u64_inverts revision).bind <| (bytes_inverts h.2).map _
  | Loaded id route descriptor =>
    exact (u8_inverts 4).bind <| (u64_inverts id).bind <| (u64_inverts route).bind <|
      (descriptor_inverts h).map _
  | Start id route =>
    exact (u8_inverts 5).bind <| (u64_inverts id).bind <| (u64_inverts route).map _
  | Started id invocations =>
    have hdeclarations : Inverts _ decodeInvocationDeclarations invocations :=
      list_inverts _ h.1 fun d hd => declaration_inverts (h.2 d hd)
    exact (u8_inverts 6).bind <| (u64_inverts id).bind <| hdeclarations.map _
  | Invoke id route format bytes remainingNanos =>
    exact (u8_inverts 12).bind <| (u64_inverts id).bind <| (u64_inverts route).bind <|
      (string_inverts h.1).bind <| (bytes_inverts h.2).bind <| (u64_inverts remainingNanos).map _
  | InvokeResult id outcome =>
    cases outcome with
    | Success format bytes =>
      have houtcome : Inverts _ (decodeOutcome semantic 0) (.Success format bytes) :=
        (string_inverts h.1).bind <| (bytes_inverts h.2).map _
      exact (u8_inverts 13).bind <| (u64_inverts id).bind <| (u8_inverts 0).bind <| houtcome.map _
    | RemoteDomain error =>
      have houtcome : Inverts _ (decodeOutcome semantic 1) (.RemoteDomain error) :=
        (domainError_inverts h).map _
      exact (u8_inverts 13).bind <| (u64_inverts id).bind <| (u8_inverts 1).bind <| houtcome.map _
    | HostFailure error =>
      have houtcome : Inverts _ (decodeOutcome semantic 2) (.HostFailure error) :=
        (hostError_inverts h).map _
      exact (u8_inverts 13).bind <| (u64_inverts id).bind <| (u8_inverts 2).bind <| houtcome.map _
  | Cancel id => exact (u8_inverts 14).bind <| (u64_inverts id).last rfl
  | Dispose id route =>
    exact (u8_inverts 7).bind <| (u64_inverts id).bind <| (u64_inverts route).map _
  | Disposed id => exact (u8_inverts 8).bind <| (u64_inverts id).last rfl
  | Shutdown id => exact (u8_inverts 9).bind <| (u64_inverts id).last rfl
  | ShutdownAck id => exact (u8_inverts 10).bind <| (u64_inverts id).last rfl
  | Failure id failure =>
    cases failure with
    | Host error =>
      have hfailure : Inverts _ (decodeFailure semantic 0) (.Host error) :=
        (hostError_inverts h).map _
      exact (u8_inverts 11).bind <| (u64_inverts id).bind <| (u8_inverts 0).bind <| hfailure.map _
    | Domain error =>
      have hfailure : Inverts _ (decodeFailure semantic 1) (.Domain error) :=
        (domainError_inverts h).map _
      exact (u8_inverts 11).bind <| (u64_inverts id).bind <| (u8_inverts 1).bind <| hfailure.map _

theorem decodeMessage_eq (semantic : Limits) : decodeMessage semantic =
    decodeBody semantic >>= fun m => Decoder.finish >>= fun _ => pure m := by
  simp only [decodeMessage, decodeBody, bind_assoc]

theorem decodeMessage_eq_ok {semantic : Limits} {payload rest : List UInt8} {m : Message} :
    decodeMessage semantic payload = .ok (m, rest) ↔
      rest = [] ∧ decodeBody semantic payload = .ok (m, []) := by
  rw [decodeMessage_eq]
  constructor
  · intro h
    obtain ⟨m', rest', hbody, h⟩ := bind_ok h
    obtain ⟨_, rest'', hfinish, h⟩ := bind_ok h
    unfold Decoder.finish at hfinish
    split at hfinish
    · rename_i hnil
      cases hfinish
      cases h
      exact ⟨hnil, hnil ▸ hbody⟩
    · cases hfinish
  · rintro ⟨rfl, h⟩
    rw [bind_of_ok h]
    rfl

theorem decode_eq_ok {payload : List UInt8} {semantic : Limits} {m : Message} :
    decode payload semantic = .ok m ↔ decodeBody semantic payload = .ok (m, []) := by
  unfold decode
  constructor
  · intro h
    split at h
    · rename_i m' rest hmessage
      cases h
      exact (decodeMessage_eq_ok.mp hmessage).2
    · cases h
  · intro h
    rw [decodeMessage_eq_ok.mpr ⟨rfl, h⟩]

theorem encode_eq_ok {m : Message} {limit : Nat} {payload : List UInt8} :
    encode m limit = .ok payload ↔
      encodeMessage m [] = .ok ((), payload) ∧ payload.length ≤ limit := by
  unfold encode
  cases encodeMessage m [] with
  | error error => simp
  | ok p =>
    obtain ⟨_, written⟩ := p
    constructor
    · intro h
      dsimp only at h
      split at h
      · cases h
      · cases h
        exact ⟨rfl, by omega⟩
    · rintro ⟨h, hlen⟩
      cases h
      dsimp only
      rw [if_neg (by omega)]

/-- A bounded message that encodes at all decodes to itself. -/
theorem decode_encode {semantic : Limits} {m : Message} {limit : Nat} {payload : List UInt8}
    (h : m.Bounded semantic) (henc : encode m limit = .ok payload) :
    decode payload semantic = .ok m := by
  obtain ⟨xs, hxs, hread⟩ := message_inverts h [] payload (encode_eq_ok.mp henc).1
  rw [List.nil_append] at hxs
  subst hxs
  have hbody := hread []
  rw [List.append_nil] at hbody
  exact decode_eq_ok.mpr hbody

/-! ## The stream -/

theorem readExact_reads {xs : List UInt8} {n : Nat} (h : xs.length = n)
    (failure : String → HostError) : Reads (readExact n failure) xs xs := by
  intro rest
  subst h
  simp [readExact]

theorem readFrame_reads {payload : List UInt8} {limit : Nat} (h : payload.length ≤ limit)
    (hfit : payload.length ≤ U32_MAX) :
    Reads (readFrame limit) (beBytes 4 payload.length ++ payload) payload := by
  have hlt : payload.length < 256 ^ 4 := by
    unfold U32_MAX at hfit
    omega
  apply (readExact_reads (length_beBytes 4 payload.length) _).bind
  dsimp only
  rw [beValue_beBytes hlt, if_neg (by omega)]
  exact readExact_reads rfl _

theorem writeFrame_appends {m : Message} {limit : Nat} {payload : List UInt8}
    (henc : encode m limit = .ok payload) (hfit : payload.length ≤ U32_MAX) :
    Appends (writeFrame limit m) (beBytes 4 payload.length ++ payload) := by
  rw [writeFrame, henc]
  dsimp only
  rw [if_pos hfit]
  exact (extend_appends _).seq (extend_appends payload)

/-- One frame: what the writer puts on the pipe for a bounded message is read off as that message. -/
theorem writeFrame_inverts {semantic : Limits} {m : Message} {limit : Nat}
    (h : m.Bounded semantic) :
    Inverts (writeFrame limit m) (readMessage limit semantic) m := by
  cases henc : encode m limit with
  | error error =>
    intro out out' hw
    rw [writeFrame, henc] at hw
    cases hw
  | ok payload =>
    by_cases hfit : payload.length ≤ U32_MAX
    · have hread : Reads (readMessage limit semantic) (beBytes 4 payload.length ++ payload) m := by
        intro rest
        unfold readMessage
        rw [readFrame_reads (encode_eq_ok.mp henc).2 hfit rest]
        dsimp only
        rw [decode_encode h henc]
      exact .of_appends (writeFrame_appends henc hfit) hread
    · intro out out' hw
      rw [writeFrame, henc] at hw
      dsimp only at hw
      rw [if_neg hfit] at hw
      cases hw

theorem writeFrames_ok {ms : List Message} {limit : Nat} (hlimit : limit ≤ U32_MAX)
    (h : ∀ m ∈ ms, ∃ payload, encode m limit = .ok payload) (out : List UInt8) :
    ∃ out', writeAll (writeFrame limit) ms out = .ok ((), out') := by
  induction ms generalizing out with
  | nil => exact ⟨out, rfl⟩
  | cons m ms ih =>
    obtain ⟨payload, henc⟩ := h m (List.mem_cons_self ..)
    have hfit : payload.length ≤ U32_MAX := (encode_eq_ok.mp henc).2.trans hlimit
    have hframe := writeFrame_appends henc hfit
    obtain ⟨out', hrest⟩ := ih (fun m' hm' => h m' (List.mem_cons_of_mem m hm'))
      (out ++ (beBytes 4 payload.length ++ payload))
    refine ⟨out', ?_⟩
    rw [writeAll, bind_of_ok (hframe out), hrest]

/-- The stream of a list of bounded messages that all encode under the frame limit is read back as the
same list, and no byte is left. Under a frame limit that fits in a `u32` that stream exists. -/
theorem wire_stream_round_trip (semantic : Limits) (limit : Nat) (ms : List Message)
    (hbounded : ∀ m ∈ ms, m.Bounded semantic)
    (hencodes : ∀ m ∈ ms, ∃ payload, encode m limit = .ok payload) :
    (∀ pipe, writeAll (writeFrame limit) ms [] = .ok ((), pipe) →
        readMany (readMessage limit semantic) ms.length pipe = .ok (ms, [])) ∧
      (limit ≤ U32_MAX → ∃ pipe, writeAll (writeFrame limit) ms [] = .ok ((), pipe)) := by
  constructor
  · intro pipe hpipe
    have hframe : ∀ m ∈ ms, Inverts (writeFrame limit m) (readMessage limit semantic) m :=
      fun m hm => writeFrame_inverts (hbounded m hm)
    obtain ⟨xs, hxs, hread⟩ := Inverts.all hframe [] pipe hpipe
    have hall := hread []
    rwa [List.append_nil, ← List.nil_append xs, ← hxs] at hall
  · intro hlimit
    exact writeFrames_ok hlimit hencodes []

/-- A frame with every optional field, and a short one. -/
def samplePair : List Message :=
  [.InvokeResult 7 (.RemoteDomain ⟨"a", "", some ("", [1, 2])⟩), .ShutdownAck 8]

theorem wire_stream_round_trip_pair :
    ∃ pipe, writeAll (writeFrame 64) samplePair [] = .ok ((), pipe) ∧
      readMany (readMessage 64 ⟨64, 8, 8, 8, 1⟩) 2 pipe = .ok (samplePair, []) := by
  have hencodes : ∀ m ∈ samplePair, ∃ payload, encode m 64 = .ok payload := by
    intro m hm
    fin_cases hm <;> exact ⟨_, rfl⟩
  have h := wire_stream_round_trip ⟨64, 8, 8, 8, 1⟩ 64 samplePair (by decide) hencodes
  obtain ⟨pipe, hpipe⟩ := h.2 (by decide)
  exact ⟨pipe, hpipe, h.1 pipe hpipe⟩

end Cordis.Protocol
