import Cordis.Host.Protocol

/-!
# The fields of the wire format

Each helper of the encoder against its counterpart of the decoder, in both directions. The one pair
that is not canonical is the presence byte of the details of a domain error.
-/

namespace Cordis.Protocol

open Wire

/-! ## Numbers -/

theorem extend_appends (xs : List UInt8) : Appends (Encoder.extend xs) xs := fun _ => rfl

theorem u8_appends (v : UInt8) : Appends (Encoder.u8 v) [v] := extend_appends _

theorem u16_appends (v : UInt16) : Appends (Encoder.u16 v) (beBytes 2 v.toNat) := extend_appends _

theorem u64_appends (v : UInt64) : Appends (Encoder.u64 v) (beBytes 8 v.toNat) := extend_appends _

theorem u32_appends {n : Nat} (h : n ≤ U32_MAX) : Appends (Encoder.u32 n) (beBytes 4 n) := by
  rw [Encoder.u32, if_pos h]
  exact extend_appends _

theorem u32_ok {n : Nat} {out out' : List UInt8} (h : Encoder.u32 n out = .ok ((), out')) :
    n ≤ U32_MAX := by
  unfold Encoder.u32 at h
  split at h
  · assumption
  · cases h

theorem take_reads {xs : List UInt8} {n : Nat} (h : xs.length = n) :
    Reads (Decoder.take n) xs xs := by
  intro rest
  subst h
  simp [Decoder.take]

theorem take_consumes (n : Nat) :
    Consumes (Decoder.take n) fun ys xs => ys = xs ∧ xs.length = n := by
  intro inp ys rest h
  unfold Decoder.take at h
  split at h
  · rename_i hlen
    cases h
    refine ⟨inp.take n, (List.take_append_drop n inp).symm, rfl, ?_⟩
    rw [List.length_take, Nat.min_eq_left hlen]
  · cases h

theorem number_reads {α : Type} {n v : Nat} (hv : v < 256 ^ n) (f : Nat → α) :
    Reads (Decoder.take n >>= fun bytes => pure (f (beValue bytes))) (beBytes n v) (f v) := by
  have h := (take_reads (length_beBytes n v)).map fun bytes => f (beValue bytes)
  rwa [beValue_beBytes hv] at h

theorem number_consumes {α : Type} (n : Nat) (f : Nat → α) :
    Consumes (Decoder.take n >>= fun bytes => pure (f (beValue bytes))) fun a xs =>
      ∃ v < 256 ^ n, a = f v ∧ xs = beBytes n v := by
  apply (take_consumes n).bind
  rintro ys xs ⟨rfl, hlen⟩
  refine .pure ⟨beValue ys, hlen ▸ beValue_lt ys, rfl, ?_⟩
  rw [List.append_nil, ← hlen, beBytes_beValue]

theorem u8_reads (v : UInt8) : Reads Decoder.u8 [v] v := by
  have h := number_reads (n := 1) v.toNat_lt UInt8.ofNat
  have hbyte : beBytes 1 v.toNat = [v] := by simp [beBytes]
  rwa [UInt8.ofNat_toNat, hbyte] at h

theorem u16_reads (v : UInt16) : Reads Decoder.u16 (beBytes 2 v.toNat) v := by
  have h := number_reads (n := 2) v.toNat_lt UInt16.ofNat
  rwa [UInt16.ofNat_toNat] at h

theorem u64_reads (v : UInt64) : Reads Decoder.u64 (beBytes 8 v.toNat) v := by
  have h := number_reads (n := 8) v.toNat_lt UInt64.ofNat
  rwa [UInt64.ofNat_toNat] at h

theorem u8_inverts (v : UInt8) : Inverts (Encoder.u8 v) Decoder.u8 v :=
  .of_appends (u8_appends v) (u8_reads v)

theorem u16_inverts (v : UInt16) : Inverts (Encoder.u16 v) Decoder.u16 v :=
  .of_appends (u16_appends v) (u16_reads v)

theorem u64_inverts (v : UInt64) : Inverts (Encoder.u64 v) Decoder.u64 v :=
  .of_appends (u64_appends v) (u64_reads v)

theorem u32_inverts (v : Nat) : Inverts (Encoder.u32 v) Decoder.u32 v := by
  intro out out' hw
  have hv := u32_ok hw
  have hlt : v < 256 ^ 4 := by
    unfold U32_MAX at hv
    omega
  exact Inverts.of_appends (u32_appends hv) (number_reads hlt id) out out' hw

theorem u8_canonical : Canonical Encoder.u8 Decoder.u8 := by
  apply (number_consumes 1 UInt8.ofNat).mono
  rintro a xs ⟨v, -, rfl, rfl⟩
  simpa [beBytes] using u8_appends (UInt8.ofNat v)

theorem u16_canonical : Canonical Encoder.u16 Decoder.u16 := by
  apply (number_consumes 2 UInt16.ofNat).mono
  rintro a xs ⟨v, hv, rfl, rfl⟩
  have h := u16_appends (UInt16.ofNat v)
  rwa [UInt16.toNat_ofNat_of_lt' hv] at h

theorem u64_canonical : Canonical Encoder.u64 Decoder.u64 := by
  apply (number_consumes 8 UInt64.ofNat).mono
  rintro a xs ⟨v, hv, rfl, rfl⟩
  have h := u64_appends (UInt64.ofNat v)
  rwa [UInt64.toNat_ofNat_of_lt' hv] at h

theorem u32_consumes :
    Consumes Decoder.u32 fun v xs => v ≤ U32_MAX ∧ Appends (Encoder.u32 v) xs := by
  apply (number_consumes 4 id).mono
  rintro v xs ⟨_, hv, rfl, rfl⟩
  have hle : v ≤ U32_MAX := by
    unfold U32_MAX
    omega
  exact ⟨hle, u32_appends hle⟩

theorem u32_canonical : Canonical Encoder.u32 Decoder.u32 := by
  apply u32_consumes.mono
  rintro a xs ⟨-, h⟩
  exact h

/-! ## Byte fields and strings -/

theorem bytes_appends {xs : List UInt8} (h : xs.length ≤ U32_MAX) :
    Appends (Encoder.bytes xs) (beBytes 4 xs.length ++ xs) :=
  (u32_appends h).seq (extend_appends xs)

theorem bytes_inverts {xs : List UInt8} {limit : Nat} (h : xs.length ≤ limit) :
    Inverts (Encoder.bytes xs) (Decoder.bytes limit) xs := by
  apply (u32_inverts xs.length).bind
  rw [if_neg (by omega)]
  exact .of_appends (extend_appends xs) (take_reads rfl)

theorem bytes_canonical (limit : Nat) : Canonical Encoder.bytes (Decoder.bytes limit) := by
  apply u32_consumes.bind
  rintro len xs ⟨-, hxs⟩
  split
  · exact .throw
  · apply (take_consumes len).mono
    rintro ys zs ⟨rfl, rfl⟩
    exact hxs.seq (extend_appends ys)

theorem string_inverts {s : String} {limit : Nat} (h : (utf8 s).length ≤ limit) :
    Inverts (Encoder.string s) (Decoder.string limit) s := by
  apply (bytes_inverts h).last
  rw [ofUtf8?_utf8]

theorem string_canonical (limit : Nat) : Canonical Encoder.string (Decoder.string limit) := by
  apply (bytes_canonical limit).bind
  intro bytes xs hxs
  split
  · rename_i value hvalue
    rw [← ofUtf8?_eq_some.mp hvalue] at hxs
    refine .pure ?_
    rw [List.append_nil]
    exact hxs
  · exact .throw

/-! ## Limits and host errors -/

theorem limits_inverts (v : Limits) : Inverts (Encoder.limits v) Decoder.limits v :=
  (u32_inverts v.frame).bind <| (u32_inverts v.artifact).bind <| (u32_inverts v.request).bind <|
    (u32_inverts v.response).bind <|
      (u32_inverts v.inflight).map _

theorem limits_canonical : Canonical Encoder.limits Decoder.limits := by
  apply u32_canonical.bind
  intro frame xs₁ h₁
  apply u32_canonical.bind
  intro artifact xs₂ h₂
  apply u32_canonical.bind
  intro request xs₃ h₃
  apply u32_canonical.bind
  intro response xs₄ h₄
  apply u32_canonical.bind
  intro inflight xs₅ h₅
  refine .pure ?_
  rw [List.append_nil]
  exact h₁.seq (h₂.seq (h₃.seq (h₄.seq h₅)))

theorem decodeHostKind_code (kind : HostFailureKind) :
    decodeHostKind (hostKindCode kind) = pure kind := by
  cases kind <;> rfl

theorem decodeHostKind_consumes (code : UInt8) :
    Consumes (decodeHostKind code) fun kind xs => hostKindCode kind = code ∧ xs = [] := by
  unfold decodeHostKind
  split <;> first | exact .pure ⟨rfl, rfl⟩ | exact .throw

theorem hostError_inverts {error : HostError}
    (h : (utf8 error.message).length ≤ MAX_DESCRIPTOR_STRING) :
    Inverts (encodeHostError error) decodeHostError error := by
  apply (u8_inverts (hostKindCode error.kind)).bind
  rw [decodeHostKind_code, pure_bind]
  exact (string_inverts h).map _

theorem hostError_canonical : Canonical encodeHostError decodeHostError := by
  apply u8_canonical.bind
  intro code xs₁ h₁
  apply (decodeHostKind_consumes code).bind
  rintro kind _ ⟨rfl, rfl⟩
  apply (string_canonical _).bind
  intro message xs₂ h₂
  refine .pure ?_
  rw [List.append_nil]
  exact h₁.seq h₂

/-! ## Keys, declarations and descriptors -/

/-- The strings of a key are within the decoder's bound. -/
def ServiceKey.Bounded (key : ServiceKey) : Prop :=
  (utf8 key.namespaceName).length ≤ MAX_DESCRIPTOR_STRING ∧
    (utf8 key.name).length ≤ MAX_DESCRIPTOR_STRING

@[inherit_doc ServiceKey.Bounded]
def InvocationKey.Bounded (key : InvocationKey) : Prop :=
  (utf8 key.namespaceName).length ≤ MAX_DESCRIPTOR_STRING ∧
    (utf8 key.name).length ≤ MAX_DESCRIPTOR_STRING

instance (key : ServiceKey) : Decidable key.Bounded := inferInstanceAs (Decidable (_ ∧ _))

instance (key : InvocationKey) : Decidable key.Bounded := inferInstanceAs (Decidable (_ ∧ _))

theorem version_inverts (v : UInt32) {α : Type} (f : UInt32 → α) :
    Inverts (Encoder.u32 v.toNat) (Decoder.u32 >>= fun version => pure (f (UInt32.ofNat version)))
      (f v) := by
  have h := (u32_inverts v.toNat).map fun version => f (UInt32.ofNat version)
  rwa [UInt32.ofNat_toNat] at h

theorem version_canonical :
    Consumes Decoder.u32 fun v xs => Appends (Encoder.u32 (UInt32.ofNat v).toNat) xs := by
  apply u32_consumes.mono
  rintro v xs ⟨hv, hxs⟩
  have hlt : v < UInt32.size := by
    unfold U32_MAX at hv
    change v < 4294967296
    omega
  rwa [UInt32.toNat_ofNat_of_lt' hlt]

theorem key_inverts {key : ServiceKey} (h : key.Bounded) :
    Inverts (encodeKey key) decodeKey key :=
  (string_inverts h.1).bind <| (string_inverts h.2).bind <|
    version_inverts key.version _

theorem key_canonical : Canonical encodeKey decodeKey := by
  apply (string_canonical _).bind
  intro namespaceName xs₁ h₁
  apply (string_canonical _).bind
  intro name xs₂ h₂
  apply version_canonical.bind
  intro version xs₃ h₃
  refine .pure ?_
  rw [List.append_nil]
  exact h₁.seq (h₂.seq h₃)

theorem declaration_inverts {declaration : InvocationDeclaration} (h : declaration.key.Bounded) :
    Inverts (encodeDeclaration declaration) decodeDeclaration declaration :=
  (u64_inverts declaration.route).bind <| (string_inverts h.1).bind <| (string_inverts h.2).bind <|
    version_inverts declaration.key.version fun version =>
      InvocationDeclaration.mk declaration.route
        ⟨declaration.key.namespaceName, declaration.key.name, version⟩

theorem declaration_canonical : Canonical encodeDeclaration decodeDeclaration := by
  apply u64_canonical.bind
  intro route xs₁ h₁
  apply (string_canonical _).bind
  intro namespaceName xs₂ h₂
  apply (string_canonical _).bind
  intro name xs₃ h₃
  apply version_canonical.bind
  intro version xs₄ h₄
  refine .pure ?_
  rw [List.append_nil]
  exact h₁.seq (h₂.seq (h₃.seq h₄))

theorem list_inverts {α : Type} {w : α → Encoder} {r : Decoder α} {items : List α} {limit : Nat}
    (failure : HostError) (hlen : items.length ≤ limit) (h : ∀ a ∈ items, Inverts (w a) r a) :
    Inverts (Encoder.u32 items.length >>= fun _ => writeAll w items)
      (Decoder.u32 >>= fun count => if count > limit then throw failure else readMany r count)
      items := by
  apply (u32_inverts items.length).bind
  rw [if_neg (by omega)]
  exact .all h

theorem list_canonical {α : Type} {w : α → Encoder} {r : Decoder α} (limit : Nat)
    (failure : HostError) (h : Canonical w r) :
    Canonical (fun items => Encoder.u32 items.length >>= fun _ => writeAll w items)
      (Decoder.u32 >>= fun count => if count > limit then throw failure else readMany r count) := by
  apply u32_canonical.bind
  intro count xs₁ h₁
  split
  · exact .throw
  · apply (h.many count).mono
    rintro items xs₂ ⟨rfl, h₂⟩
    exact h₁.seq h₂

/-- The strings and lists of a descriptor are within the decoder's bounds. -/
structure PluginDescriptor.Bounded (d : PluginDescriptor) : Prop where
  name : (utf8 d.name).length ≤ MAX_DESCRIPTOR_STRING
  dependencies : d.dependencies.length ≤ MAX_DESCRIPTOR_ITEMS
  dependency : ∀ key ∈ d.dependencies, key.Bounded
  provisions : d.provisions.length ≤ MAX_DESCRIPTOR_ITEMS
  provision : ∀ key ∈ d.provisions, key.Bounded

instance (d : PluginDescriptor) : Decidable d.Bounded :=
  decidable_of_iff ((utf8 d.name).length ≤ MAX_DESCRIPTOR_STRING ∧
      d.dependencies.length ≤ MAX_DESCRIPTOR_ITEMS ∧ (∀ key ∈ d.dependencies, key.Bounded) ∧
      d.provisions.length ≤ MAX_DESCRIPTOR_ITEMS ∧ ∀ key ∈ d.provisions, key.Bounded)
    ⟨fun ⟨h₁, h₂, h₃, h₄, h₅⟩ => ⟨h₁, h₂, h₃, h₄, h₅⟩, fun h => ⟨h.1, h.2, h.3, h.4, h.5⟩⟩

theorem decodeDependencyPolicy_code (policy : DependencyPolicy) :
    decodeDependencyPolicy (dependencyPolicyCode policy) = pure policy := by
  cases policy <;> rfl

theorem decodeDependencyPolicy_consumes (code : UInt8) :
    Consumes (decodeDependencyPolicy code) fun policy xs =>
      dependencyPolicyCode policy = code ∧ xs = [] := by
  unfold decodeDependencyPolicy
  split <;> first | exact .pure ⟨rfl, rfl⟩ | exact .throw

theorem keys_inverts {keys : List ServiceKey} (hlen : keys.length ≤ MAX_DESCRIPTOR_ITEMS)
    (h : ∀ key ∈ keys, key.Bounded) : Inverts (encodeKeys keys) decodeKeys keys :=
  list_inverts _ hlen fun key hkey => key_inverts (h key hkey)

theorem descriptor_inverts {d : PluginDescriptor} (h : d.Bounded) :
    Inverts (encodeDescriptor d) decodeDescriptor d := by
  apply (string_inverts h.name).bind
  apply (keys_inverts h.dependencies h.dependency).bind
  apply (keys_inverts h.provisions h.provision).bind
  apply (u8_inverts (dependencyPolicyCode d.dependencyPolicy)).bind
  rw [decodeDependencyPolicy_code, pure_bind]
  exact (u64_inverts d.revision).map _

theorem descriptor_canonical : Canonical encodeDescriptor decodeDescriptor := by
  apply (string_canonical _).bind
  intro name xs₁ h₁
  apply (list_canonical _ _ key_canonical).bind
  intro dependencies xs₂ h₂
  apply (list_canonical _ _ key_canonical).bind
  intro provisions xs₃ h₃
  apply u8_canonical.bind
  intro code xs₄ h₄
  apply (decodeDependencyPolicy_consumes code).bind
  rintro policy _ ⟨rfl, rfl⟩
  apply u64_canonical.bind
  intro revision xs₅ h₅
  refine .pure ?_
  rw [List.append_nil]
  exact h₁.seq (h₂.seq (h₃.seq (h₄.seq h₅)))

/-! ## Domain errors -/

/-- The strings of a domain error, and its details under `limit`, are within the decoder's bounds. -/
structure RemoteDomainError.Bounded (error : RemoteDomainError) (limit : Nat) : Prop where
  code : (utf8 error.code).length ≤ MAX_DESCRIPTOR_STRING
  message : (utf8 error.message).length ≤ MAX_DESCRIPTOR_STRING
  format : ∀ d ∈ error.details, (utf8 d.1).length ≤ MAX_DESCRIPTOR_STRING
  payload : ∀ d ∈ error.details, d.2.length ≤ limit

instance (error : RemoteDomainError) (limit : Nat) : Decidable (error.Bounded limit) :=
  decidable_of_iff ((utf8 error.code).length ≤ MAX_DESCRIPTOR_STRING ∧
      (utf8 error.message).length ≤ MAX_DESCRIPTOR_STRING ∧
      (∀ d ∈ error.details, (utf8 d.1).length ≤ MAX_DESCRIPTOR_STRING) ∧
      ∀ d ∈ error.details, d.2.length ≤ limit)
    ⟨fun ⟨h₁, h₂, h₃, h₄⟩ => ⟨h₁, h₂, h₃, h₄⟩, fun h => ⟨h.1, h.2, h.3, h.4⟩⟩

theorem domainError_inverts {error : RemoteDomainError} {limit : Nat} (h : error.Bounded limit) :
    Inverts (encodeDomainError error) (decodeDomainError limit) error := by
  obtain ⟨code, message, details⟩ := error
  apply (string_inverts h.code).bind
  apply (string_inverts h.message).bind
  cases details with
  | none => exact (u8_inverts 0).last rfl
  | some d =>
    apply (u8_inverts 1).bind
    exact (string_inverts (h.format d rfl)).bind <| (bytes_inverts (h.payload d rfl)).map _

end Cordis.Protocol
