import Cordis.Host.Protocol

/-!
# Limits of a process host session

What a configuration must satisfy, how the limits of a session are negotiated, and the size checks that
are made on the caller's side before a message is built.
-/

namespace Cordis.Protocol

/-- `ProcessHostConfig`; the timeout is in nanoseconds. -/
structure ProcessHostConfig where
  handshakeTimeout : Nat
  maxFrameBytes : Nat
  maxArtifactBytes : Nat
  maxRequestBytes : Nat
  maxResponseBytes : Nat
  maxControlBytes : Nat
  maxInflightRequests : Nat
  outboundQueueCapacity : Nat
  deriving DecidableEq, Repr

namespace ProcessHostConfig

/-- `ProcessHostConfig::default`. -/
def default : ProcessHostConfig where
  handshakeTimeout := 5 * 10 ^ 9
  maxFrameBytes := 1024 * 1024
  maxArtifactBytes := 512 * 1024
  maxRequestBytes := 256 * 1024
  maxResponseBytes := 256 * 1024
  maxControlBytes := 64 * 1024
  maxInflightRequests := 256
  outboundQueueCapacity := 256

/-- `validate`; the error is `InvalidRuntimeConfig`. -/
def validate (config : ProcessHostConfig) : Except String Unit :=
  if config.handshakeTimeout = 0 ∨
      config.maxFrameBytes = 0 ∨
      config.maxFrameBytes > U32_MAX ∨
      config.maxArtifactBytes = 0 ∨
      config.maxArtifactBytes > config.maxFrameBytes ∨
      config.maxRequestBytes = 0 ∨
      config.maxRequestBytes > config.maxFrameBytes ∨
      config.maxResponseBytes = 0 ∨
      config.maxResponseBytes > config.maxFrameBytes ∨
      config.maxControlBytes = 0 ∨
      config.maxControlBytes > config.maxFrameBytes ∨
      config.maxInflightRequests = 0 ∨
      config.maxInflightRequests > U32_MAX ∨
      config.outboundQueueCapacity = 0 then
    .error "invalid ProcessHost limits"
  else .ok ()

/-- `limits`. -/
def limits (config : ProcessHostConfig) : Limits where
  frame := config.maxFrameBytes
  artifact := config.maxArtifactBytes
  request := config.maxRequestBytes
  response := config.maxResponseBytes
  inflight := config.maxInflightRequests

/-- The default configuration passes its own check. -/
example : default.validate = .ok () := by decide

theorem frame_le_of_validate {config : ProcessHostConfig} (h : config.validate = .ok ()) :
    config.limits.frame ≤ U32_MAX := by
  unfold validate at h
  split at h
  · cases h
  · rename_i hvalid
    have hframe : ¬ config.maxFrameBytes > U32_MAX := fun hgt => hvalid (.inr (.inr (.inl hgt)))
    exact Nat.not_lt.mp hframe

end ProcessHostConfig

/-- The limits of a session, in `handshake`. -/
def negotiate (local_ peer : Limits) : Limits where
  frame := min local_.frame peer.frame
  artifact := min local_.artifact peer.artifact
  request := min local_.request peer.request
  response := min local_.response peer.response
  inflight := min local_.inflight peer.inflight

/-- The check that `apply_negotiated` makes on the negotiated limits. -/
def checkNegotiated (limits : Limits) : Except HostError Unit :=
  if limits.frame = 0 ∨ limits.artifact = 0 ∨ limits.inflight = 0 then
    .error ⟨.HandshakeIncompatible, "peer negotiated a zero session limit"⟩
  else .ok ()

/-- The size check of `SessionClient::load`. -/
def checkLoad (limits : Limits) (payload : List UInt8) : Except HostError Unit :=
  if payload.length > limits.artifact then
    .error ⟨.MessageTooLarge, "artifact exceeds negotiated process host limit"⟩
  else .ok ()

/-- The size check of `SessionClient::invoke`. -/
def checkInvoke (limits : Limits) (bytes : List UInt8) : Except HostError Unit :=
  if bytes.length > limits.request then
    .error ⟨.MessageTooLarge, "invocation request exceeds negotiated process host limit"⟩
  else .ok ()

/-- `SessionState`. -/
inductive SessionState
  | Created
  | Handshaking
  | Ready
  | Draining
  | Closed
  | Failed
  deriving DecidableEq, Repr

/-- The frame limit under which `writer_task` encodes a message. -/
def writerLimit (state : SessionState) (limits : Limits) (maxControlBytes : Nat)
    (message : Message) : Nat :=
  if state = .Created ∨ state = .Handshaking then min ABSOLUTE_HANDSHAKE_FRAME_LIMIT maxControlBytes
  else if message.isControl then min limits.frame maxControlBytes
  else limits.frame

end Cordis.Protocol
