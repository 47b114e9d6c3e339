import Cordis.Host.Config
import Cordis.Host.RoundTrip

/-!
# Size checks and frame limits

`invoke` and `load` compare one field of their message with one limit. Whether the message then fits
in a frame depends on its other fields too: on the overhead of the format and on the length of the
format label, which nobody checks before the message is encoded.
-/

namespace Cordis.Protocol

open Wire

/-- The writer encodes `m` and the peer decodes the payload, both under the same limits. -/
def Deliverable (state : SessionState) (limits : Limits) (maxControlBytes : Nat) (m : Message) :
    Prop :=
  ∃ payload, encode m (writerLimit state limits maxControlBytes m) = .ok payload ∧
    ∃ m', decode payload limits = .ok m'

/-- The bytes of an `Invoke` frame. -/
def invokeBytes (format : String) (bytes : List UInt8) : Nat :=
  33 + (utf8 format).length + bytes.length

/-- The bytes of a `Load` frame. -/
def loadBytes (format : String) (payload : List UInt8) : Nat :=
  25 + (utf8 format).length + payload.length

theorem string_appends {s : String} (h : (utf8 s).length ≤ U32_MAX) :
    Appends (Encoder.string s) (beBytes 4 (utf8 s).length ++ utf8 s) := bytes_appends h

theorem invoke_appends (id route : UInt64) {format : String} {bytes : List UInt8}
    (nanos : UInt64) (hf : (utf8 format).length ≤ U32_MAX) (hb : bytes.length ≤ U32_MAX) :
    Appends (encodeMessage (.Invoke id route format bytes nanos))
      ([12] ++ (beBytes 8 id.toNat ++ (beBytes 8 route.toNat ++
        ((beBytes 4 (utf8 format).length ++ utf8 format) ++
          ((beBytes 4 bytes.length ++ bytes) ++ beBytes 8 nanos.toNat))))) :=
  (u8_appends 12).seq <| (u64_appends id).seq <| (u64_appends route).seq <|
    (string_appends hf).seq <| (bytes_appends hb).seq (u64_appends nanos)

theorem load_appends (id : UInt64) {format : String} {payload : List UInt8} (revision : UInt64)
    (hf : (utf8 format).length ≤ U32_MAX) (hp : payload.length ≤ U32_MAX) :
    Appends (encodeMessage (.Load id format revision payload))
      ([3] ++ (beBytes 8 id.toNat ++ ((beBytes 4 (utf8 format).length ++ utf8 format) ++
        (beBytes 8 revision.toNat ++ (beBytes 4 payload.length ++ payload))))) :=
  (u8_appends 3).seq <| (u64_appends id).seq <| (string_appends hf).seq <|
    (u64_appends revision).seq (bytes_appends hp)

/-- The decoder rejects a string over its bound before it reads it. -/
theorem string_too_long {s : String} {limit : Nat} (hfit : (utf8 s).length ≤ U32_MAX)
    (h : limit < (utf8 s).length) (rest : List UInt8) :
    Decoder.string limit ((beBytes 4 (utf8 s).length ++ utf8 s) ++ rest) =
      .error ⟨.MessageTooLarge, "nested byte field exceeds limit"⟩ := by
  have hlt : (utf8 s).length < 256 ^ 4 := by
    unfold U32_MAX at hfit
    omega
  have hread := number_reads hlt id (utf8 s ++ rest)
  rw [List.append_assoc]
  apply bind_of_error
  rw [Decoder.bytes]
  refine (bind_of_ok hread).trans ?_
  dsimp only [id]
  rw [if_pos h]
  rfl

theorem writerLimit_payload {state : SessionState} {limits : Limits} {maxControlBytes : Nat}
    {m : Message} (hstate : state ≠ .Created ∧ state ≠ .Handshaking) (hm : m.isControl = false) :
    writerLimit state limits maxControlBytes m = limits.frame := by
  rw [writerLimit, if_neg (by tauto), hm]
  rfl

theorem encode_of_fields {m : Message} {limit : Nat} {fields payload : List UInt8}
    (h : Appends (encodeMessage m) fields) :
    encode m limit = .ok payload ↔ payload = fields ∧ fields.length ≤ limit := by
  rw [encode_eq_ok, h []]
  constructor
  · rintro ⟨hrun, hlen⟩
    cases hrun
    exact ⟨rfl, hlen⟩
  · rintro ⟨rfl, hlen⟩
    exact ⟨rfl, hlen⟩

theorem invoke_fits {id route nanos : UInt64} {format : String} {bytes payload : List UInt8}
    {limit : Nat} (h : encode (.Invoke id route format bytes nanos) limit = .ok payload) :
    (utf8 format).length ≤ U32_MAX ∧ bytes.length ≤ U32_MAX := by
  obtain ⟨_, _, -, h⟩ := bind_ok (encode_eq_ok.mp h).1
  obtain ⟨_, _, -, h⟩ := bind_ok h
  obtain ⟨_, _, -, h⟩ := bind_ok h
  obtain ⟨_, _, hformat, h⟩ := bind_ok h
  obtain ⟨_, _, hbytes, -⟩ := bind_ok h
  obtain ⟨_, _, hformat, -⟩ := bind_ok hformat
  obtain ⟨_, _, hbytes, -⟩ := bind_ok hbytes
  exact ⟨u32_ok hformat, u32_ok hbytes⟩

theorem load_fits {id revision : UInt64} {format : String} {bytes payload : List UInt8}
    {limit : Nat} (h : encode (.Load id format revision bytes) limit = .ok payload) :
    (utf8 format).length ≤ U32_MAX ∧ bytes.length ≤ U32_MAX := by
  obtain ⟨_, _, -, h⟩ := bind_ok (encode_eq_ok.mp h).1
  obtain ⟨_, _, -, h⟩ := bind_ok h
  obtain ⟨_, _, hformat, h⟩ := bind_ok h
  obtain ⟨_, _, -, hbytes⟩ := bind_ok h
  obtain ⟨_, _, hformat, -⟩ := bind_ok hformat
  obtain ⟨_, _, hbytes, -⟩ := bind_ok hbytes
  exact ⟨u32_ok hformat, u32_ok hbytes⟩

theorem decodeBody_fields (semantic : Limits) (tag : UInt8) (id : UInt64) (rest : List UInt8) :
    decodeBody semantic ([tag] ++ (beBytes 8 id.toNat ++ rest)) = decodeFields semantic tag id rest := by
  rw [decodeBody]
  refine (bind_of_ok (u8_reads tag _)).trans ?_
  exact bind_of_ok (u64_reads id rest)

theorem decode_invoke_format {semantic : Limits} {id route nanos : UInt64} {format : String}
    {bytes payload : List UInt8} {limit : Nat} {m : Message}
    (henc : encode (.Invoke id route format bytes nanos) limit = .ok payload)
    (hdec : decode payload semantic = .ok m) : (utf8 format).length ≤ MAX_DESCRIPTOR_STRING := by
  by_contra hlong
  obtain ⟨hf, hb⟩ := invoke_fits henc
  obtain ⟨rfl, -⟩ := (encode_of_fields (invoke_appends id route nanos hf hb)).mp henc
  have hbody := decode_eq_ok.mp hdec
  rw [decodeBody_fields, decodeFields] at hbody
  rw [bind_of_ok (u64_reads route _), bind_of_error (string_too_long hf (by omega) _)] at hbody
  cases hbody

theorem decode_load_format {semantic : Limits} {id revision : UInt64} {format : String}
    {bytes payload : List UInt8} {limit : Nat} {m : Message}
    (henc : encode (.Load id format revision bytes) limit = .ok payload)
    (hdec : decode payload semantic = .ok m) : (utf8 format).length ≤ MAX_DESCRIPTOR_STRING := by
  by_contra hlong
  obtain ⟨hf, hb⟩ := load_fits henc
  obtain ⟨rfl, -⟩ := (encode_of_fields (load_appends id revision hf hb)).mp henc
  have hbody := decode_eq_ok.mp hdec
  rw [decodeBody_fields, decodeFields] at hbody
  rw [bind_of_error (string_too_long hf (by omega) _)] at hbody
  cases hbody

section

variable {limits : Limits} {state : SessionState} {maxControlBytes : Nat}

theorem invoke_deliverable {format : String} {bytes : List UInt8} {id route nanos : UInt64}
    (hstate : state ≠ .Created ∧ state ≠ .Handshaking) (hframe : limits.frame ≤ U32_MAX)
    (hcheck : checkInvoke limits bytes = .ok ()) :
    Deliverable state limits maxControlBytes (.Invoke id route format bytes nanos) ↔
      (utf8 format).length ≤ MAX_DESCRIPTOR_STRING ∧ invokeBytes format bytes ≤ limits.frame := by
  have hsize : bytes.length ≤ limits.request := by
    unfold checkInvoke at hcheck
    split at hcheck
    · cases hcheck
    · omega
  unfold Deliverable
  rw [writerLimit_payload hstate rfl]
  constructor
  · rintro ⟨payload, henc, m', hdec⟩
    obtain ⟨hf, hb⟩ := invoke_fits henc
    have hlen := ((encode_of_fields (invoke_appends id route nanos hf hb)).mp henc).2
    refine ⟨decode_invoke_format henc hdec, ?_⟩
    simp only [List.length_append, List.length_cons, List.length_nil, length_beBytes] at hlen
    unfold invokeBytes
    omega
  · rintro ⟨hformat, hlen⟩
    unfold invokeBytes at hlen
    have hf : (utf8 format).length ≤ U32_MAX := by omega
    have hb : bytes.length ≤ U32_MAX := by omega
    obtain ⟨payload, henc⟩ :
        ∃ payload, encode (.Invoke id route format bytes nanos) limits.frame = .ok payload := by
      refine ⟨_, (encode_of_fields (invoke_appends id route nanos hf hb)).mpr ⟨rfl, ?_⟩⟩
      simp only [List.length_append, List.length_cons, List.length_nil, length_beBytes]
      omega
    have hbounded : Message.Bounded limits (.Invoke id route format bytes nanos) := ⟨hformat, hsize⟩
    exact ⟨_, henc, _, decode_encode hbounded henc⟩

theorem load_deliverable {format : String} {bytes : List UInt8} {id revision : UInt64}
    (hstate : state ≠ .Created ∧ state ≠ .Handshaking) (hframe : limits.frame ≤ U32_MAX)
    (hcheck : checkLoad limits bytes = .ok ()) :
    Deliverable state limits maxControlBytes (.Load id format revision bytes) ↔
      (utf8 format).length ≤ MAX_DESCRIPTOR_STRING ∧ loadBytes format bytes ≤ limits.frame := by
  have hsize : bytes.length ≤ limits.artifact := by
    unfold checkLoad at hcheck
    split at hcheck
    · cases hcheck
    · omega
  unfold Deliverable
  rw [writerLimit_payload hstate rfl]
  constructor
  · rintro ⟨payload, henc, m', hdec⟩
    obtain ⟨hf, hb⟩ := load_fits henc
    have hlen := ((encode_of_fields (load_appends id revision hf hb)).mp henc).2
    refine ⟨decode_load_format henc hdec, ?_⟩
    simp only [List.length_append, List.length_cons, List.length_nil, length_beBytes] at hlen
    unfold loadBytes
    omega
  · rintro ⟨hformat, hlen⟩
    unfold loadBytes at hlen
    have hf : (utf8 format).length ≤ U32_MAX := by omega
    have hb : bytes.length ≤ U32_MAX := by omega
    obtain ⟨payload, henc⟩ : ∃ payload, encode (.Load id format revision bytes) limits.frame = .ok payload := by
      refine ⟨_, (encode_of_fields (load_appends id revision hf hb)).mpr ⟨rfl, ?_⟩⟩
      simp only [List.length_append, List.length_cons, List.length_nil, length_beBytes]
      omega
    have hbounded : Message.Bounded limits (.Load id format revision bytes) := ⟨hformat, hsize⟩
    exact ⟨_, henc, _, decode_encode hbounded henc⟩

end

/-- An admitted request or artifact is encoded by the writer and decoded by the peer exactly when its
format label is within the decoder's bound and the whole frame, not only the checked field, is within
the frame limit. -/
theorem admitted_deliverable (config : ProcessHostConfig) (peer limits : Limits)
    (state : SessionState) (hvalid : config.validate = .ok ())
    (hlimits : limits = negotiate config.limits peer)
    (hstate : state ≠ .Created ∧ state ≠ .Handshaking) :
    (∀ id route format bytes nanos, checkInvoke limits bytes = .ok () →
      (Deliverable state limits config.maxControlBytes (.Invoke id route format bytes nanos) ↔
        (utf8 format).length ≤ MAX_DESCRIPTOR_STRING ∧
          invokeBytes format bytes ≤ limits.frame)) ∧
    ∀ id format revision payload, checkLoad limits payload = .ok () →
      (Deliverable state limits config.maxControlBytes (.Load id format revision payload) ↔
        (utf8 format).length ≤ MAX_DESCRIPTOR_STRING ∧
          loadBytes format payload ≤ limits.frame) := by
  have hframe : limits.frame ≤ U32_MAX := by
    have hle := ProcessHostConfig.frame_le_of_validate hvalid
    rw [hlimits]
    exact (Nat.min_le_left ..).trans hle
  constructor
  · intro id route format bytes nanos hcheck
    exact invoke_deliverable hstate hframe hcheck
  · intro id format revision payload hcheck
    exact load_deliverable hstate hframe hcheck

/-- A configuration whose frame and request limits coincide. -/
def sampleConfig : ProcessHostConfig :=
  { ProcessHostConfig.default with
    maxFrameBytes := 64, maxArtifactBytes := 64, maxRequestBytes := 64, maxResponseBytes := 64,
    maxControlBytes := 64 }

theorem admitted_deliverable_sample :
    (∀ id route format bytes nanos, checkInvoke sampleConfig.limits bytes = .ok () →
      (Deliverable .Ready sampleConfig.limits sampleConfig.maxControlBytes
          (.Invoke id route format bytes nanos) ↔
        (utf8 format).length ≤ MAX_DESCRIPTOR_STRING ∧
          invokeBytes format bytes ≤ sampleConfig.limits.frame)) ∧
    ∀ id format revision payload, checkLoad sampleConfig.limits payload = .ok () →
      (Deliverable .Ready sampleConfig.limits sampleConfig.maxControlBytes
          (.Load id format revision payload) ↔
        (utf8 format).length ≤ MAX_DESCRIPTOR_STRING ∧
          loadBytes format payload ≤ sampleConfig.limits.frame) :=
  admitted_deliverable sampleConfig sampleConfig.limits sampleConfig.limits .Ready (by decide)
    (by decide) (by decide)

/-- A request of 64 bytes passes the check under those limits, but its frame does not. -/
theorem admitted_request_too_large :
    sampleConfig.validate = .ok () ∧
      checkNegotiated (negotiate sampleConfig.limits sampleConfig.limits) = .ok () ∧
      checkInvoke (negotiate sampleConfig.limits sampleConfig.limits) (List.replicate 64 0) =
        .ok () ∧
      encode (.Invoke 1 1 "" (List.replicate 64 0) 0)
        (writerLimit .Ready (negotiate sampleConfig.limits sampleConfig.limits)
          sampleConfig.maxControlBytes (.Invoke 1 1 "" (List.replicate 64 0) 0)) =
        .error ⟨.MessageTooLarge, "encoded frame exceeds limit"⟩ := by
  refine ⟨by decide, by decide, by decide, by decide⟩

end Cordis.Protocol
