import Cordis.Library.Wire

/-!
# The wire format of the reference process host

The messages between the runtime and a hosted process, their encoder and their decoder. A `usize` of
the source is a `Nat`, an `Arc<str>` a `String`, a byte slice a `List UInt8`; the decoder's offset into
the payload is kept as the bytes that are left.
-/

namespace Cordis.Protocol

open Wire

def ABSOLUTE_HANDSHAKE_FRAME_LIMIT : Nat := 64 * 1024
def PROTOCOL_MAJOR : UInt16 := 1
def PROTOCOL_MINOR : UInt16 := 1
def FEATURE_LIFECYCLE : UInt64 := 1
def FEATURE_INVOCATION : UInt64 := (1 : UInt64) <<< 1
def FEATURE_CANCEL : UInt64 := (1 : UInt64) <<< 2
def FEATURE_DEADLINE : UInt64 := (1 : UInt64) <<< 3
def SUPPORTED_FEATURES : UInt64 :=
  FEATURE_LIFECYCLE ||| FEATURE_INVOCATION ||| FEATURE_CANCEL ||| FEATURE_DEADLINE
def REQUIRED_FEATURES : UInt64 := FEATURE_LIFECYCLE
def MAX_DESCRIPTOR_STRING : Nat := 4 * 1024
def MAX_DESCRIPTOR_ITEMS : Nat := 256
def MAX_INVOCATION_DECLARATIONS : Nat := 256

/-- `u32::MAX`. -/
def U32_MAX : Nat := 2 ^ 32 - 1

/-! ## Messages -/

/-- Stable execution-host failure category. -/
inductive HostFailureKind
  | HandshakeIncompatible | ProtocolViolation | TransportClosed | ProcessExited | ProcessKilled
  | MessageTooLarge | UnsupportedFormat | UnsupportedCapability | Overloaded | Unavailable
  deriving DecidableEq, Repr

/-- Typed execution-host failure with diagnostic text. -/
structure HostError where
  kind : HostFailureKind
  message : String
  deriving DecidableEq, Repr

/-- Typed failure intentionally returned by remote plugin code. -/
structure RemoteDomainError where
  code : String
  message : String
  details : Option (String × List UInt8)
  deriving DecidableEq, Repr

/-- `RemoteDomainError::new`. -/
def RemoteDomainError.new (code message : String) : RemoteDomainError := ⟨code, message, none⟩

/-- `RemoteDomainError::with_details`. -/
def RemoteDomainError.withDetails (e : RemoteDomainError) (format : String) (bytes : List UInt8) :
    RemoteDomainError :=
  { e with details := some (format, bytes) }

structure ServiceKey where
  namespaceName : String
  name : String
  version : UInt32
  deriving DecidableEq, Repr

structure InvocationKey where
  namespaceName : String
  name : String
  version : UInt32
  deriving DecidableEq, Repr

/-- Missing dependency policy. -/
inductive DependencyPolicy
  | Restart | Dispose
  deriving DecidableEq, Repr

structure PluginDescriptor where
  name : String
  dependencies : List ServiceKey
  provisions : List ServiceKey
  dependencyPolicy : DependencyPolicy
  revision : UInt64
  deriving DecidableEq, Repr

structure InvocationDeclaration where
  route : UInt64
  key : InvocationKey
  deriving DecidableEq, Repr

inductive InvokeOutcome
  | Success (format : String) (bytes : List UInt8)
  | RemoteDomain (error : RemoteDomainError)
  | HostFailure (error : HostError)
  deriving DecidableEq, Repr

/-- The limits of a session. -/
structure Limits where
  frame : Nat
  artifact : Nat
  request : Nat
  response : Nat
  inflight : Nat
  deriving DecidableEq, Repr

inductive WireFailure
  | Host (error : HostError)
  | Domain (error : RemoteDomainError)
  deriving DecidableEq, Repr

inductive Message
  | Hello (id : UInt64) (major minor : UInt16) (supportedFeatures requiredFeatures : UInt64)
      (limits : Limits)
  | HelloAck (id : UInt64) (major minor : UInt16) (supportedFeatures requiredFeatures : UInt64)
      (limits : Limits)
  | Load (id : UInt64) (format : String) (revision : UInt64) (payload : List UInt8)
  | Loaded (id route : UInt64) (descriptor : PluginDescriptor)
  | Start (id route : UInt64)
  | Started (id : UInt64) (invocations : List InvocationDeclaration)
  | Invoke (id route : UInt64) (format : String) (bytes : List UInt8) (remainingNanos : UInt64)
  | InvokeResult (id : UInt64) (outcome : InvokeOutcome)
  | Cancel (id : UInt64)
  | Dispose (id route : UInt64)
  | Disposed (id : UInt64)
  | Shutdown (id : UInt64)
  | ShutdownAck (id : UInt64)
  | Failure (id : UInt64) (failure : WireFailure)
  deriving DecidableEq, Repr

/-- `Message::id`. -/
def Message.id : Message → UInt64
  | Hello id .. | HelloAck id .. | Load id .. | Loaded id .. | Start id .. | Started id ..
  | Invoke id .. | InvokeResult id .. | Cancel id | Dispose id .. | Disposed id | Shutdown id
  | ShutdownAck id | Failure id .. => id

/-- `Message::is_control`. -/
def Message.isControl : Message → Bool
  | Load .. | Loaded .. | Invoke .. | InvokeResult .. => false
  | _ => true

/-- `payload_is_control`. -/
def payloadIsControl (payload : List UInt8) : Bool :=
  match payload.head? with
  | some 3 | some 4 | some 12 | some 13 => false
  | _ => true

def violation (message : String) : HostError := ⟨.ProtocolViolation, message⟩

/-- `host_kind_code`. -/
def hostKindCode : HostFailureKind → UInt8
  | .HandshakeIncompatible => 0
  | .TransportClosed => 2
  | .ProcessExited => 3
  | .ProcessKilled => 4
  | .MessageTooLarge => 5
  | .UnsupportedFormat => 6
  | .UnsupportedCapability => 7
  | .Overloaded => 8
  | .Unavailable => 9
  | _ => 1

/-! ## The encoder -/

/-- The encoder's buffer is its state. -/
abbrev Encoder := Wire.Writer HostError Unit

namespace Encoder

/-- `extend_from_slice`. -/
def extend (bytes : List UInt8) : Encoder := modify (· ++ bytes)

def u8 (value : UInt8) : Encoder := extend [value]

def u16 (value : UInt16) : Encoder := extend (beBytes 2 value.toNat)

def u32 (value : Nat) : Encoder :=
  if value ≤ U32_MAX then extend (beBytes 4 value) else throw (violation "wire length exceeds u32")

def u64 (value : UInt64) : Encoder := extend (beBytes 8 value.toNat)

def bytes (value : List UInt8) : Encoder := do
  u32 value.length
  extend value

def string (value : String) : Encoder := bytes (utf8 value)

def limits (value : Limits) : Encoder := do
  u32 value.frame
  u32 value.artifact
  u32 value.request
  u32 value.response
  u32 value.inflight

end Encoder

/-- `encode_key`. -/
def encodeKey (key : ServiceKey) : Encoder := do
  Encoder.string key.namespaceName
  Encoder.string key.name
  Encoder.u32 key.version.toNat

/-- `encode_invocation_key`. -/
def encodeInvocationKey (key : InvocationKey) : Encoder := do
  Encoder.string key.namespaceName
  Encoder.string key.name
  Encoder.u32 key.version.toNat

/-- The body of the loop over the declarations of `Started`. -/
def encodeDeclaration (declaration : InvocationDeclaration) : Encoder := do
  Encoder.u64 declaration.route
  encodeInvocationKey declaration.key

/-- An array of keys, as `encode_descriptor` writes its two. -/
def encodeKeys (keys : List ServiceKey) : Encoder := do
  Encoder.u32 keys.length
  writeAll encodeKey keys

/-- The byte of a dependency policy. -/
def dependencyPolicyCode : DependencyPolicy → UInt8
  | .Restart => 0
  | .Dispose => 1

/-- `encode_descriptor`. -/
def encodeDescriptor (d : PluginDescriptor) : Encoder := do
  Encoder.string d.name
  encodeKeys d.dependencies
  encodeKeys d.provisions
  Encoder.u8 (dependencyPolicyCode d.dependencyPolicy)
  Encoder.u64 d.revision

/-- `encode_domain_error`, also written out in the `Failure` branch of `encode`. -/
def encodeDomainError (error : RemoteDomainError) : Encoder := do
  Encoder.string error.code
  Encoder.string error.message
  match error.details with
  | some (format, payload) => do
    Encoder.u8 1
    Encoder.string format
    Encoder.bytes payload
  | none => Encoder.u8 0

/-- A `HostError` as `Failure` and `InvokeResult` write it. -/
def encodeHostError (error : HostError) : Encoder := do
  Encoder.u8 (hostKindCode error.kind)
  Encoder.string error.message

/-- What `encode` writes before it checks the frame limit. -/
def encodeMessage : Message → Encoder
  | .Hello id major minor supportedFeatures requiredFeatures limits => do
    Encoder.u8 1
    Encoder.u64 id
    Encoder.u16 major
    Encoder.u16 minor
    Encoder.u64 supportedFeatures
    Encoder.u64 requiredFeatures
    Encoder.limits limits
  | .HelloAck id major minor supportedFeatures requiredFeatures limits => do
    Encoder.u8 2
    Encoder.u64 id
    Encoder.u16 major
    Encoder.u16 minor
    Encoder.u64 supportedFeatures
    Encoder.u64 requiredFeatures
    Encoder.limits limits
  | .Load id format revision payload => do
    Encoder.u8 3
    Encoder.u64 id
    Encoder.string format
    Encoder.u64 revision
    Encoder.bytes payload
  | .Loaded id route descriptor => do
    Encoder.u8 4
    Encoder.u64 id
    Encoder.u64 route
    encodeDescriptor descriptor
  | .Start id route => do
    Encoder.u8 5
    Encoder.u64 id
    Encoder.u64 route
  | .Started id invocations => do
    Encoder.u8 6
    Encoder.u64 id
    Encoder.u32 invocations.length
    writeAll encodeDeclaration invocations
  | .Dispose id route => do
    Encoder.u8 7
    Encoder.u64 id
    Encoder.u64 route
  | .Disposed id => do
    Encoder.u8 8
    Encoder.u64 id
  | .Shutdown id => do
    Encoder.u8 9
    Encoder.u64 id
  | .ShutdownAck id => do
    Encoder.u8 10
    Encoder.u64 id
  | .Failure id (.Host error) => do
    Encoder.u8 11
    Encoder.u64 id
    Encoder.u8 0
    encodeHostError error
  | .Failure id (.Domain error) => do
    Encoder.u8 11
    Encoder.u64 id
    Encoder.u8 1
    encodeDomainError error
  | .Invoke id route format bytes remainingNanos => do
    Encoder.u8 12
    Encoder.u64 id
    Encoder.u64 route
    Encoder.string format
    Encoder.bytes bytes
    Encoder.u64 remainingNanos
  | .InvokeResult id (.Success format bytes) => do
    Encoder.u8 13
    Encoder.u64 id
    Encoder.u8 0
    Encoder.string format
    Encoder.bytes bytes
  | .InvokeResult id (.RemoteDomain error) => do
    Encoder.u8 13
    Encoder.u64 id
    Encoder.u8 1
    encodeDomainError error
  | .InvokeResult id (.HostFailure error) => do
    Encoder.u8 13
    Encoder.u64 id
    Encoder.u8 2
    encodeHostError error
  | .Cancel id => do
    Encoder.u8 14
    Encoder.u64 id

/-- `encode`. -/
def encode (message : Message) (limit : Nat) : Except HostError (List UInt8) :=
  match encodeMessage message [] with
  | .error error => .error error
  | .ok (_, payload) =>
    if payload.length > limit then .error ⟨.MessageTooLarge, "encoded frame exceeds limit"⟩
    else .ok payload

/-! ## The decoder -/

abbrev Decoder (α : Type) := Wire.Reader HostError α

namespace Decoder

def take (count : Nat) : Decoder (List UInt8) := fun rest =>
  if count ≤ rest.length then .ok (rest.take count, rest.drop count)
  else .error (violation "truncated field")

def u8 : Decoder UInt8 := do
  let value ← take 1
  pure (UInt8.ofNat (beValue value))

def u16 : Decoder UInt16 := do
  let value ← take 2
  pure (UInt16.ofNat (beValue value))

def u32 : Decoder Nat := do
  let value ← take 4
  pure (beValue value)

def u64 : Decoder UInt64 := do
  let value ← take 8
  pure (UInt64.ofNat (beValue value))

def bytes (semanticLimit : Nat) : Decoder (List UInt8) := do
  let len ← u32
  if len > semanticLimit then throw ⟨.MessageTooLarge, "nested byte field exceeds limit"⟩
  else take len

def string (semanticLimit : Nat) : Decoder String := do
  let bytes ← bytes semanticLimit
  match ofUtf8? bytes with
  | some value => pure value
  | none => throw (violation "invalid UTF-8 string")

def limits : Decoder Limits := do
  let frame ← u32
  let artifact ← u32
  let request ← u32
  let response ← u32
  let inflight ← u32
  pure ⟨frame, artifact, request, response, inflight⟩

/-- `Decoder::finish`. -/
def finish : Decoder Unit := fun rest =>
  if rest = [] then .ok ((), rest) else .error (violation "trailing frame data")

end Decoder

/-- `decode_host_kind`. -/
def decodeHostKind (code : UInt8) : Decoder HostFailureKind :=
  match code with
  | 0 => pure .HandshakeIncompatible
  | 1 => pure .ProtocolViolation
  | 2 => pure .TransportClosed
  | 3 => pure .ProcessExited
  | 4 => pure .ProcessKilled
  | 5 => pure .MessageTooLarge
  | 6 => pure .UnsupportedFormat
  | 7 => pure .UnsupportedCapability
  | 8 => pure .Overloaded
  | 9 => pure .Unavailable
  | _ => throw (violation "unknown host failure kind")

/-- The body of the loop of `decode_keys`; a version of four bytes always fits. -/
def decodeKey : Decoder ServiceKey := do
  let namespaceName ← Decoder.string MAX_DESCRIPTOR_STRING
  let name ← Decoder.string MAX_DESCRIPTOR_STRING
  let version ← Decoder.u32
  pure ⟨namespaceName, name, UInt32.ofNat version⟩

/-- `decode_keys`. -/
def decodeKeys : Decoder (List ServiceKey) := do
  let count ← Decoder.u32
  if count > MAX_DESCRIPTOR_ITEMS then throw ⟨.MessageTooLarge, "descriptor array exceeds limit"⟩
  else readMany decodeKey count

/-- The body of the loop of `decode_invocation_declarations`. -/
def decodeDeclaration : Decoder InvocationDeclaration := do
  let route ← Decoder.u64
  let namespaceName ← Decoder.string MAX_DESCRIPTOR_STRING
  let name ← Decoder.string MAX_DESCRIPTOR_STRING
  let version ← Decoder.u32
  pure ⟨route, ⟨namespaceName, name, UInt32.ofNat version⟩⟩

/-- `decode_invocation_declarations`. -/
def decodeInvocationDeclarations : Decoder (List InvocationDeclaration) := do
  let count ← Decoder.u32
  if count > MAX_INVOCATION_DECLARATIONS then
    throw ⟨.MessageTooLarge, "invocation declaration array exceeds limit"⟩
  else readMany decodeDeclaration count

/-- The policy byte of a descriptor. -/
def decodeDependencyPolicy (code : UInt8) : Decoder DependencyPolicy :=
  match code with
  | 0 => pure .Restart
  | 1 => pure .Dispose
  | _ => throw (violation "unknown dependency policy")

/-- `decode_descriptor`. -/
def decodeDescriptor : Decoder PluginDescriptor := do
  let name ← Decoder.string MAX_DESCRIPTOR_STRING
  let dependencies ← decodeKeys
  let provisions ← decodeKeys
  let policy ← Decoder.u8
  let dependencyPolicy ← decodeDependencyPolicy policy
  let revision ← Decoder.u64
  pure ⟨name, dependencies, provisions, dependencyPolicy, revision⟩

/-- `decode_domain_error`, also written out in the `Failure` branch of `decode`. -/
def decodeDomainError (payloadLimit : Nat) : Decoder RemoteDomainError := do
  let code ← Decoder.string MAX_DESCRIPTOR_STRING
  let message ← Decoder.string MAX_DESCRIPTOR_STRING
  let present ← Decoder.u8
  -- every byte but one means that there are no details
  if present = 1 then do
    let format ← Decoder.string MAX_DESCRIPTOR_STRING
    let payload ← Decoder.bytes payloadLimit
    pure ((RemoteDomainError.new code message).withDetails format payload)
  else pure (RemoteDomainError.new code message)

/-- A `HostError` as `Failure` and `InvokeResult` read it. -/
def decodeHostError : Decoder HostError := do
  let code ← Decoder.u8
  let kind ← decodeHostKind code
  let message ← Decoder.string MAX_DESCRIPTOR_STRING
  pure ⟨kind, message⟩

/-- The failure of a `Failure` message, after its category byte. -/
def decodeFailure (semantic : Limits) (kind : UInt8) : Decoder WireFailure :=
  if kind = 0 then do
    let error ← decodeHostError
    pure (.Host error)
  else if kind = 1 then do
    let error ← decodeDomainError semantic.response
    pure (.Domain error)
  else throw (violation "unknown failure category")

/-- The outcome of an `InvokeResult` message, after its outcome byte. -/
def decodeOutcome (semantic : Limits) (outcome : UInt8) : Decoder InvokeOutcome :=
  match outcome with
  | 0 => do
    let format ← Decoder.string MAX_DESCRIPTOR_STRING
    let bytes ← Decoder.bytes semantic.response
    pure (.Success format bytes)
  | 1 => do
    let error ← decodeDomainError semantic.response
    pure (.RemoteDomain error)
  | 2 => do
    let error ← decodeHostError
    pure (.HostFailure error)
  | _ => throw (violation "unknown invocation outcome")

/-- The fields of the message with tag `tag`, after the tag and the id. -/
def decodeFields (semantic : Limits) (tag : UInt8) (id : UInt64) : Decoder Message :=
  match tag with
  | 1 => do
    let major ← Decoder.u16
    let minor ← Decoder.u16
    let supportedFeatures ← Decoder.u64
    let requiredFeatures ← Decoder.u64
    let limits ← Decoder.limits
    pure (.Hello id major minor supportedFeatures requiredFeatures limits)
  | 2 => do
    let major ← Decoder.u16
    let minor ← Decoder.u16
    let supportedFeatures ← Decoder.u64
    let requiredFeatures ← Decoder.u64
    let limits ← Decoder.limits
    pure (.HelloAck id major minor supportedFeatures requiredFeatures limits)
  | 3 => do
    let format ← Decoder.string MAX_DESCRIPTOR_STRING
    let revision ← Decoder.u64
    let payload ← Decoder.bytes semantic.artifact
    pure (.Load id format revision payload)
  | 4 => do
    let route ← Decoder.u64
    let descriptor ← decodeDescriptor
    pure (.Loaded id route descriptor)
  | 5 => do
    let route ← Decoder.u64
    pure (.Start id route)
  | 6 => do
    let invocations ← decodeInvocationDeclarations
    pure (.Started id invocations)
  | 7 => do
    let route ← Decoder.u64
    pure (.Dispose id route)
  | 8 => pure (.Disposed id)
  | 9 => pure (.Shutdown id)
  | 10 => pure (.ShutdownAck id)
  | 11 => do
    let kind ← Decoder.u8
    let failure ← decodeFailure semantic kind
    pure (.Failure id failure)
  | 12 => do
    let route ← Decoder.u64
    let format ← Decoder.string MAX_DESCRIPTOR_STRING
    let bytes ← Decoder.bytes semantic.request
    let remainingNanos ← Decoder.u64
    pure (.Invoke id route format bytes remainingNanos)
  | 13 => do
    let outcome ← Decoder.u8
    let outcome ← decodeOutcome semantic outcome
    pure (.InvokeResult id outcome)
  | 14 => pure (.Cancel id)
  | _ => throw (violation "unknown message tag")

/-- What `decode` reads, to the end of the payload. -/
def decodeMessage (semantic : Limits) : Decoder Message := do
  let tag ← Decoder.u8
  let id ← Decoder.u64
  let message ← decodeFields semantic tag id
  Decoder.finish
  pure message

/-- `decode`. -/
def decode (payload : List UInt8) (semantic : Limits) : Except HostError Message :=
  match decodeMessage semantic payload with
  | .ok (message, _) => .ok message
  | .error error => .error error

/-! ## Frames -/

/-- A message as `writer_task` puts it on the pipe under the frame limit `limit`; the bytes on the pipe
are the state. -/
def writeFrame (limit : Nat) (message : Message) : Wire.Writer HostError Unit :=
  match encode message limit with
  | .error error => throw error
  | .ok payload =>
    if payload.length ≤ U32_MAX then do
      Encoder.extend (beBytes 4 payload.length)
      Encoder.extend payload
    else throw ⟨.MessageTooLarge, "frame exceeds u32"⟩

/-- `read_exact` on a pipe whose write end is closed after the bytes that are left. -/
def readExact (count : Nat) (failure : String → HostError) : Decoder (List UInt8) := fun rest =>
  if count ≤ rest.length then .ok (rest.take count, rest.drop count)
  else .error (failure "early eof")

/-- `read_frame`. -/
def readFrame (limit : Nat) : Decoder (List UInt8) := do
  let header ← readExact 4 fun error =>
    ⟨.TransportClosed, "process host frame header failed: " ++ error⟩
  let length := beValue header
  if length > limit then throw ⟨.MessageTooLarge, "frame length exceeds current hard limit"⟩
  else readExact length fun error =>
    ⟨.ProtocolViolation, "truncated process host frame: " ++ error⟩

/-- One turn of the reader: a frame, then the message in it. -/
def readMessage (limit : Nat) (semantic : Limits) : Decoder Message := fun rest =>
  match readFrame limit rest with
  | .error error => .error error
  | .ok (payload, rest) =>
    match decode payload semantic with
    | .error error => .error error
    | .ok message => .ok (message, rest)

end Cordis.Protocol
