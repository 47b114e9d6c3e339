import Cordis.Host.RoundTrip

/-!
# What the decoder accepts

An accepted payload is the encoding of its message, with one exception: where a domain error has no
details the encoder writes the presence byte `0`, but the decoder takes every byte except `1` for
absent. `detailsPresence` finds that byte in a payload.
-/

namespace Cordis.Protocol

open Wire

/-! ## The presence byte -/

/-- What follows a length-prefixed field. -/
def skipField (bs : List UInt8) : List UInt8 := bs.drop (4 + beValue (bs.take 4))

/-- The domain error in a payload: after the tag, the id and the category byte of a `Failure`, or the
outcome byte of an `InvokeResult`. -/
def domainErrorOf (payload : List UInt8) : Option (List UInt8) :=
  match payload.head? with
  | some 11 | some 13 => if payload[9]? = some 1 then some (payload.drop 10) else none
  | _ => none

/-- The presence byte of the details of the domain error in a payload. -/
def detailsPresence (payload : List UInt8) : Option UInt8 :=
  (domainErrorOf payload).bind fun error => (skipField (skipField error)).head?

/-- The presence byte, if there is one, is a byte that the encoder writes. -/
def PresenceCanonical (payload : List UInt8) : Prop := ∀ p ∈ detailsPresence payload, p = 0 ∨ p = 1

instance (payload : List UInt8) : Decidable (PresenceCanonical payload) :=
  inferInstanceAs (Decidable (∀ p ∈ detailsPresence payload, p = 0 ∨ p = 1))

/-! ## Messages with another presence byte -/

/-- `encode_domain_error` with `absent` for the byte that says that there are no details. -/
def domainErrorAs (absent : UInt8) (error : RemoteDomainError) : Encoder := do
  Encoder.string error.code
  Encoder.string error.message
  match error.details with
  | some (format, payload) => do
    Encoder.u8 1
    Encoder.string format
    Encoder.bytes payload
  | none => Encoder.u8 absent

/-- The encoder with `absent` for the byte that says that there are no details. -/
def messageAs (absent : UInt8) : Message → Encoder
  | .Failure id (.Domain error) => do
    Encoder.u8 11
    Encoder.u64 id
    Encoder.u8 1
    domainErrorAs absent error
  | .InvokeResult id (.RemoteDomain error) => do
    Encoder.u8 13
    Encoder.u64 id
    Encoder.u8 1
    domainErrorAs absent error
  | m => encodeMessage m

/-- The domain error that a message carries. -/
def Message.domainError? : Message → Option RemoteDomainError
  | .Failure _ (.Domain error) => some error
  | .InvokeResult _ (.RemoteDomain error) => some error
  | _ => none

/-- The presence byte that `messageAs absent` writes. -/
def Message.presence (absent : UInt8) (m : Message) : Option UInt8 :=
  m.domainError?.map fun error => if error.details.isSome then 1 else absent

theorem messageAs_zero (m : Message) : messageAs 0 m = encodeMessage m := by
  unfold messageAs
  split <;> rfl

theorem messageAs_congr {p q : UInt8} {m : Message} (h : m.presence p = m.presence q) :
    messageAs p m = messageAs q m := by
  have hdomain : ∀ error, m.domainError? = some error →
      domainErrorAs p error = domainErrorAs q error := by
    rintro ⟨code, message, details⟩ hm
    rw [Message.presence, Message.presence, hm] at h
    cases details with
    | some d => rfl
    | none =>
      have hpq : p = q := by simpa using h
      rw [hpq]
  unfold messageAs
  split
  · rw [hdomain _ rfl]
  · rw [hdomain _ rfl]
  · rfl

/-! ## Where the presence byte stands -/

theorem skipField_bytes {xs : List UInt8} (h : xs.length ≤ U32_MAX) (rest : List UInt8) :
    skipField (beBytes 4 xs.length ++ xs ++ rest) = rest := by
  have hlt : xs.length < 256 ^ 4 := by
    unfold U32_MAX at h
    omega
  have htake : (beBytes 4 xs.length ++ (xs ++ rest)).take 4 = beBytes 4 xs.length :=
    List.take_left' (length_beBytes 4 _)
  rw [List.append_assoc, skipField, htake, beValue_beBytes hlt, ← List.drop_drop,
    List.drop_left' (length_beBytes 4 _), List.drop_left]

theorem skipField_string {s : String} {xs : List UInt8} (h : Appends (Encoder.string s) xs)
    (rest : List UInt8) : skipField (xs ++ rest) = rest := by
  obtain ⟨_, mid, hlen, -⟩ := bind_ok (h [])
  have hfit := u32_ok hlen
  rw [h.inj (bytes_appends hfit), skipField_bytes hfit]

theorem detailsPresence_plain {tag : UInt8} {xs : List UInt8} (hx : Appends (Encoder.u8 tag) xs)
    (h : tag ≠ 11 ∧ tag ≠ 13) (rest : List UInt8) : detailsPresence (xs ++ rest) = none := by
  rw [hx.inj (u8_appends tag)]
  have hnone : domainErrorOf ([tag] ++ rest) = none := by
    unfold domainErrorOf
    split
    · rename_i htag
      cases htag
      exact absurd rfl h.1
    · rename_i htag
      cases htag
      exact absurd rfl h.2
    · rfl
  rw [detailsPresence, hnone]
  rfl

theorem detailsPresence_kind {tag kind : UInt8} {id : UInt64} {xs ys zs : List UInt8}
    (hx : Appends (Encoder.u8 tag) xs) (hy : Appends (Encoder.u64 id) ys)
    (hz : Appends (Encoder.u8 kind) zs) (h : tag = 11 ∨ tag = 13) (rest : List UInt8) :
    detailsPresence (xs ++ (ys ++ (zs ++ rest))) =
      if kind = 1 then (skipField (skipField rest)).head? else none := by
  rw [hx.inj (u8_appends tag), hy.inj (u64_appends id), hz.inj (u8_appends kind)]
  have hhead : ∃ b₁ b₂ b₃ b₄ b₅ b₆ b₇ b₈, beBytes 8 id.toNat = [b₁, b₂, b₃, b₄, b₅, b₆, b₇, b₈] :=
    ⟨_, _, _, _, _, _, _, _, rfl⟩
  obtain ⟨b₁, b₂, b₃, b₄, b₅, b₆, b₇, b₈, hid⟩ := hhead
  rw [hid]
  obtain rfl | rfl := h <;> by_cases hkind : kind = 1 <;> simp [detailsPresence, domainErrorOf, hkind]

/-! ## What is consumed -/

/-- `payload` encodes `m` but for the byte that says that there are no details, which is where
`detailsPresence` finds it. -/
def Denotes (payload : List UInt8) (m : Message) : Prop :=
  ∃ absent ≠ 1, Appends (messageAs absent m) payload ∧ detailsPresence payload = m.presence absent

theorem domainError_consumes (limit : Nat) :
    Consumes (decodeDomainError limit) fun error xs =>
      ∃ absent ≠ 1, Appends (domainErrorAs absent error) xs ∧
        (skipField (skipField xs)).head? = some (if error.details.isSome then 1 else absent) := by
  apply (string_canonical _).bind
  intro code xs₁ h₁
  apply (string_canonical _).bind
  intro message xs₂ h₂
  apply u8_canonical.bind
  intro present xs₃ h₃
  split
  · rename_i hpresent
    subst hpresent
    apply (string_canonical _).bind
    intro format xs₄ h₄
    apply (bytes_canonical _).bind
    intro payload xs₅ h₅
    refine .pure ⟨0, by decide, ?_, ?_⟩
    · rw [List.append_nil]
      exact h₁.seq (h₂.seq (h₃.seq (h₄.seq h₅)))
    · rw [skipField_string h₁, skipField_string h₂, h₃.inj (u8_appends 1)]
      rfl
  · rename_i hpresent
    refine .pure ⟨present, hpresent, ?_, ?_⟩
    · rw [List.append_nil]
      exact h₁.seq (h₂.seq h₃)
    · rw [skipField_string h₁, skipField_string h₂, h₃.inj (u8_appends present)]
      rfl

theorem failure_consumes (semantic : Limits) (kind : UInt8) (id : UInt64) {xs ys zs : List UInt8}
    (hx : Appends (Encoder.u8 11) xs) (hy : Appends (Encoder.u64 id) ys)
    (hz : Appends (Encoder.u8 kind) zs) :
    Consumes (decodeFailure semantic kind) fun failure ws =>
      Denotes (xs ++ (ys ++ (zs ++ ws))) (.Failure id failure) := by
  unfold decodeFailure
  split
  · rename_i hkind
    subst hkind
    apply hostError_canonical.bind
    intro error ws hw
    refine .pure ⟨0, by decide, ?_, ?_⟩
    · rw [List.append_nil]
      exact hx.seq (hy.seq (hz.seq hw))
    · rw [detailsPresence_kind hx hy hz (by decide)]
      rfl
  · split
    · rename_i hkind
      subst hkind
      apply (domainError_consumes _).bind
      rintro error ws ⟨absent, habsent, hw, hpresence⟩
      refine .pure ⟨absent, habsent, ?_, ?_⟩
      · rw [List.append_nil]
        exact hx.seq (hy.seq (hz.seq hw))
      · rw [List.append_nil, detailsPresence_kind hx hy hz (by decide), if_pos rfl, hpresence]
        rfl
    · exact .throw

theorem outcome_consumes (semantic : Limits) (outcome : UInt8) (id : UInt64)
    {xs ys zs : List UInt8} (hx : Appends (Encoder.u8 13) xs) (hy : Appends (Encoder.u64 id) ys)
    (hz : Appends (Encoder.u8 outcome) zs) :
    Consumes (decodeOutcome semantic outcome) fun o ws =>
      Denotes (xs ++ (ys ++ (zs ++ ws))) (.InvokeResult id o) := by
  unfold decodeOutcome
  split
  · apply (string_canonical _).bind
    intro format ws₁ h₁
    apply (bytes_canonical _).bind
    intro bytes ws₂ h₂
    refine .pure ⟨0, by decide, ?_, ?_⟩
    · rw [List.append_nil]
      exact hx.seq (hy.seq (hz.seq (h₁.seq h₂)))
    · rw [detailsPresence_kind hx hy hz (by decide)]
      rfl
  · apply (domainError_consumes _).bind
    rintro error ws ⟨absent, habsent, hw, hpresence⟩
    refine .pure ⟨absent, habsent, ?_, ?_⟩
    · rw [List.append_nil]
      exact hx.seq (hy.seq (hz.seq hw))
    · rw [List.append_nil, detailsPresence_kind hx hy hz (by decide), if_pos rfl, hpresence]
      rfl
  · apply hostError_canonical.bind
    intro error ws hw
    refine .pure ⟨0, by decide, ?_, ?_⟩
    · rw [List.append_nil]
      exact hx.seq (hy.seq (hz.seq hw))
    · rw [detailsPresence_kind hx hy hz (by decide)]
      rfl
  · exact .throw

theorem denotes_plain {m : Message} {tag : UInt8} {xs ys : List UInt8}
    (hx : Appends (Encoder.u8 tag) xs) (htag : tag ≠ 11 ∧ tag ≠ 13) (hm : m.domainError? = none)
    (h : Appends (encodeMessage m) (xs ++ ys)) : Denotes (xs ++ ys) m := by
  refine ⟨0, by decide, ?_, ?_⟩
  · rwa [messageAs_zero]
  · rw [detailsPresence_plain hx htag, Message.presence, hm]
    rfl

theorem body_consumes (semantic : Limits) :
    Consumes (decodeBody semantic) fun m xs => Denotes xs m := by
  apply u8_canonical.bind
  intro tag xs hx
  apply u64_canonical.bind
  intro id ys hy
  -- one case for each tag
  unfold decodeFields
  split
  · apply u16_canonical.bind
    intro major xs₁ h₁
    apply u16_canonical.bind
    intro minor xs₂ h₂
    apply u64_canonical.bind
    intro supportedFeatures xs₃ h₃
    apply u64_canonical.bind
    intro requiredFeatures xs₄ h₄
    apply limits_canonical.bind
    intro limits xs₅ h₅
    refine .pure (denotes_plain hx (by decide) rfl ?_)
    rw [List.append_nil]
    exact hx.seq (hy.seq (h₁.seq (h₂.seq (h₃.seq (h₄.seq h₅)))))
  · apply u16_canonical.bind
    intro major xs₁ h₁
    apply u16_canonical.bind
    intro minor xs₂ h₂
    apply u64_canonical.bind
    intro supportedFeatures xs₃ h₃
    apply u64_canonical.bind
    intro requiredFeatures xs₄ h₄
    apply limits_canonical.bind
    intro limits xs₅ h₅
    refine .pure (denotes_plain hx (by decide) rfl ?_)
    rw [List.append_nil]
    exact hx.seq (hy.seq (h₁.seq (h₂.seq (h₃.seq (h₄.seq h₅)))))
  · apply (string_canonical _).bind
    intro format xs₁ h₁
    apply u64_canonical.bind
    intro revision xs₂ h₂
    apply (bytes_canonical _).bind
    intro payload xs₃ h₃
    refine .pure (denotes_plain hx (by decide) rfl ?_)
    rw [List.append_nil]
    exact hx.seq (hy.seq (h₁.seq (h₂.seq h₃)))
  · apply u64_canonical.bind
    intro route xs₁ h₁
    apply descriptor_canonical.bind
    intro descriptor xs₂ h₂
    refine .pure (denotes_plain hx (by decide) rfl ?_)
    rw [List.append_nil]
    exact hx.seq (hy.seq (h₁.seq h₂))
  · apply u64_canonical.bind
    intro route xs₁ h₁
    refine .pure (denotes_plain hx (by decide) rfl ?_)
    rw [List.append_nil]
    exact hx.seq (hy.seq h₁)
  · apply (list_canonical _ _ declaration_canonical).bind
    intro invocations xs₁ h₁
    refine .pure (denotes_plain hx (by decide) rfl ?_)
    rw [List.append_nil]
    exact hx.seq (hy.seq h₁)
  · apply u64_canonical.bind
    intro route xs₁ h₁
    refine .pure (denotes_plain hx (by decide) rfl ?_)
    rw [List.append_nil]
    exact hx.seq (hy.seq h₁)
  · refine .pure (denotes_plain hx (by decide) rfl ?_)
    rw [List.append_nil]
    exact hx.seq hy
  · refine .pure (denotes_plain hx (by decide) rfl ?_)
    rw [List.append_nil]
    exact hx.seq hy
  · refine .pure (denotes_plain hx (by decide) rfl ?_)
    rw [List.append_nil]
    exact hx.seq hy
  · apply u8_canonical.bind
    intro kind zs hz
    apply (failure_consumes semantic kind id hx hy hz).bind
    intro failure ws h
    refine .pure ?_
    rwa [List.append_nil]
  · apply u64_canonical.bind
    intro route xs₁ h₁
    apply (string_canonical _).bind
    intro format xs₂ h₂
    apply (bytes_canonical _).bind
    intro bytes xs₃ h₃
    apply u64_canonical.bind
    intro remainingNanos xs₄ h₄
    refine .pure (denotes_plain hx (by decide) rfl ?_)
    rw [List.append_nil]
    exact hx.seq (hy.seq (h₁.seq (h₂.seq (h₃.seq h₄))))
  · apply u8_canonical.bind
    intro outcome zs hz
    apply (outcome_consumes semantic outcome id hx hy hz).bind
    intro o ws h
    refine .pure ?_
    rwa [List.append_nil]
  · refine .pure (denotes_plain hx (by decide) rfl ?_)
    rw [List.append_nil]
    exact hx.seq hy
  · exact .throw

theorem decode_denotes {b : List UInt8} {semantic : Limits} {m : Message}
    (h : decode b semantic = .ok m) : Denotes b m := by
  obtain ⟨xs, hxs, hm⟩ := body_consumes semantic b m [] (decode_eq_ok.mp h)
  rw [List.append_nil] at hxs
  rwa [hxs]

/-! ## Canonical payloads -/

theorem domainErrorAs_last {p : UInt8} {error : RemoteDomainError} {out b : List UInt8}
    (hd : error.details = none) (h : domainErrorAs p error out = .ok ((), b)) :
    b.getLast? = some p := by
  obtain ⟨_, mid, -, h⟩ := bind_ok h
  obtain ⟨_, mid', -, h⟩ := bind_ok h
  rw [hd] at h
  cases h
  exact List.getLast?_concat ..

theorem messageAs_last {p : UInt8} {m : Message} {error : RemoteDomainError} {out b : List UInt8}
    (hm : m.domainError? = some error) (hd : error.details = none)
    (h : messageAs p m out = .ok ((), b)) : b.getLast? = some p := by
  unfold Message.domainError? at hm
  split at hm <;> cases hm
  all_goals
    obtain ⟨_, mid, -, h⟩ := bind_ok h
    obtain ⟨_, mid', -, h⟩ := bind_ok h
    obtain ⟨_, mid'', -, h⟩ := bind_ok h
    exact domainErrorAs_last hd h

/-- A payload that the encoder also writes is written with the presence byte `0`. -/
theorem presence_of_encode {m : Message} {absent : UInt8} {b : List UInt8} {limit : Nat}
    (h : Appends (messageAs absent m) b) (henc : encode m limit = .ok b) :
    m.presence absent = m.presence 0 := by
  have hzero : messageAs 0 m [] = .ok ((), b) := by
    rw [messageAs_zero]
    exact (encode_eq_ok.mp henc).1
  unfold Message.presence
  cases hm : m.domainError? with
  | none => rfl
  | some error =>
    cases hd : error.details with
    | some d => simp [hd]
    | none =>
      have hlast := messageAs_last hm hd (h [])
      rw [List.nil_append, messageAs_last hm hd hzero] at hlast
      rw [Option.some.inj hlast]

theorem encode_of_appends {m : Message} {b : List UInt8} (h : Appends (encodeMessage m) b) :
    encode m b.length = .ok b := by
  have hrun := h []
  rw [List.nil_append] at hrun
  exact encode_eq_ok.mpr ⟨hrun, le_refl _⟩

/-- For a byte other than `1`, the presence byte is canonical exactly when the encoder writes it. -/
theorem presenceCanonical_iff {m : Message} {absent : UInt8} {b : List UInt8} (hne : absent ≠ 1)
    (h : detailsPresence b = m.presence absent) :
    PresenceCanonical b ↔ m.presence absent = m.presence 0 := by
  unfold PresenceCanonical
  rw [h, Message.presence, Message.presence]
  cases m.domainError? with
  | none => simp
  | some error => cases hd : error.details <;> simp [hd, hne]

/-- An accepted payload is the encoding of its message exactly when its presence byte, if it has one,
is `0` or `1`. Two accepted payloads of one message are the same exactly when their presence bytes
are. -/
theorem decode_canonical (b : List UInt8) (semantic : Limits) (m : Message)
    (h : decode b semantic = .ok m) :
    (encode m b.length = .ok b ↔ PresenceCanonical b) ∧
      ∀ b' semantic', decode b' semantic' = .ok m →
        (b = b' ↔ detailsPresence b = detailsPresence b') := by
  obtain ⟨absent, hne, happends, hpresence⟩ := decode_denotes h
  constructor
  · rw [presenceCanonical_iff hne hpresence]
    constructor
    · exact presence_of_encode happends
    · intro hzero
      apply encode_of_appends
      rwa [← messageAs_zero, ← messageAs_congr hzero]
  · intro b' semantic' h'
    obtain ⟨absent', -, happends', hpresence'⟩ := decode_denotes h'
    constructor
    · exact fun hb => congrArg detailsPresence hb
    · intro hbyte
      rw [hpresence, hpresence'] at hbyte
      rw [messageAs_congr hbyte] at happends
      exact happends.inj happends'

/-- A `Failure` that carries a domain error of two empty strings, with presence byte `present`. -/
def sampleFailure (present : UInt8) : List UInt8 :=
  [11, 0, 0, 0, 0, 0, 0, 0, 5, 1, 0, 0, 0, 0, 0, 0, 0, 0, present]

theorem decode_canonical_absent :
    (encode (.Failure 5 (.Domain ⟨"", "", none⟩)) 19 = .ok (sampleFailure 0) ↔
        PresenceCanonical (sampleFailure 0)) ∧
      ∀ b' semantic', decode b' semantic' = .ok (.Failure 5 (.Domain ⟨"", "", none⟩)) →
        (sampleFailure 0 = b' ↔ detailsPresence (sampleFailure 0) = detailsPresence b') :=
  decode_canonical (sampleFailure 0) ⟨64, 8, 8, 8, 1⟩ (.Failure 5 (.Domain ⟨"", "", none⟩)) (by decide)

/-- With presence byte `2` the payload is accepted, but another payload encodes its message. -/
theorem presence_two_not_canonical :
    decode (sampleFailure 2) ⟨64, 8, 8, 8, 1⟩ = .ok (.Failure 5 (.Domain ⟨"", "", none⟩)) ∧
      encode (.Failure 5 (.Domain ⟨"", "", none⟩)) (sampleFailure 2).length ≠
        .ok (sampleFailure 2) ∧
      decode (sampleFailure 0) ⟨64, 8, 8, 8, 1⟩ = .ok (.Failure 5 (.Domain ⟨"", "", none⟩)) ∧
      sampleFailure 2 ≠ sampleFailure 0 := by
  refine ⟨by decide, by decide, by decide, by decide⟩

end Cordis.Protocol
