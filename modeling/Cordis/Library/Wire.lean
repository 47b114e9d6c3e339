import Mathlib.Tactic.Common
import Mathlib.Tactic.Ring

/-!
# Byte streams

Big-endian numbers and UTF-8 text as byte lists, and the two sides of a binary format. A *writer*
appends to the bytes written so far, a *reader* consumes a prefix of the bytes that are left; both may
fail with an error of any type. A writer and a reader of the same values agree in two directions:
`Inverts`, what is written is read back, and `Canonical`, what is read is what would be written. A
reader alone can be `Delimited`: it needs all the bytes that it consumes and none of those after them.
All three are closed under sequencing and under repetition.
-/

namespace Wire

/-! ## Big-endian numbers -/

/-- The low `n` bytes of `v`, most significant first. -/
def beBytes : Nat → Nat → List UInt8
  | 0, _ => []
  | n + 1, v => UInt8.ofNat (v / 256 ^ n) :: beBytes n v

/-- The number that big-endian bytes spell. -/
def beValue : List UInt8 → Nat
  | [] => 0
  | b :: bs => beValue bs + 256 ^ bs.length * b.toNat

@[simp] theorem length_beBytes (n v : Nat) : (beBytes n v).length = n := by
  induction n with
  | zero => rfl
  | succ n ih => simp [beBytes, ih]

theorem beValue_beBytes_mod (n v : Nat) : beValue (beBytes n v) = v % 256 ^ n := by
  induction n with
  | zero => simp [beBytes, beValue, Nat.mod_one]
  | succ n ih => simp [beBytes, beValue, ih, Nat.mod_pow_succ]

theorem beValue_beBytes {n v : Nat} (h : v < 256 ^ n) : beValue (beBytes n v) = v := by
  rw [beValue_beBytes_mod, Nat.mod_eq_of_lt h]

theorem beValue_lt (bs : List UInt8) : beValue bs < 256 ^ bs.length := by
  induction bs with
  | nil => simp [beValue]
  | cons b bs ih =>
    have hb : b.toNat + 1 ≤ 256 := b.toNat_lt
    have hmul := Nat.mul_le_mul_left (256 ^ bs.length) hb
    rw [Nat.mul_add_one] at hmul
    rw [beValue, List.length_cons, Nat.pow_succ]
    omega

theorem beBytes_add_mul (n v a : Nat) : beBytes n (v + 256 ^ n * a) = beBytes n v := by
  induction n generalizing a with
  | zero => rfl
  | succ n ih =>
    have hpow : 256 ^ (n + 1) * a = 256 ^ n * (256 * a) := by ring
    have hdiv : (v + 256 ^ n * (256 * a)) / 256 ^ n = v / 256 ^ n + 256 * a :=
      Nat.add_mul_div_left _ _ (Nat.pow_pos (by decide))
    have hbyte : UInt8.ofNat (v / 256 ^ n + 256 * a) = UInt8.ofNat (v / 256 ^ n) := by
      apply UInt8.toNat_inj.mp
      simp
    rw [beBytes, beBytes, hpow, hdiv, hbyte, ih]

theorem beBytes_beValue (bs : List UInt8) : beBytes bs.length (beValue bs) = bs := by
  induction bs with
  | nil => rfl
  | cons b bs ih =>
    have hdiv : (beValue bs + 256 ^ bs.length * b.toNat) / 256 ^ bs.length = b.toNat := by
      rw [Nat.add_mul_div_left _ _ (Nat.pow_pos (by decide)), Nat.div_eq_of_lt (beValue_lt bs), Nat.zero_add]
    rw [beValue, List.length_cons, beBytes, hdiv, beBytes_add_mul, ih]
    simp

/-! ## Text -/

/-- The UTF-8 bytes of a string. -/
def utf8 (s : String) : List UInt8 := s.toByteArray.data.toList

/-- The string that UTF-8 bytes spell, if they are well formed. -/
def ofUtf8? (bs : List UInt8) : Option String := String.fromUTF8? ⟨bs.toArray⟩

theorem ofUtf8?_eq_some {bs : List UInt8} {s : String} : ofUtf8? bs = some s ↔ utf8 s = bs := by
  unfold ofUtf8? utf8 String.fromUTF8?
  constructor
  · intro h
    split at h
    · cases h
      rfl
    · cases h
  · rintro rfl
    have hvalid : ByteArray.IsValidUTF8 ⟨s.toByteArray.data.toList.toArray⟩ := s.isValidUTF8
    rw [dif_pos hvalid]
    rfl

@[simp] theorem ofUtf8?_utf8 (s : String) : ofUtf8? (utf8 s) = some s := ofUtf8?_eq_some.mpr rfl

/-! ## Writers and readers -/

variable {ε α β : Type}

/-- A writer appends to the bytes written so far. -/
abbrev Writer (ε : Type) : Type → Type := StateT (List UInt8) (Except ε)

/-- A reader consumes a prefix of the bytes that are left. -/
abbrev Reader (ε : Type) : Type → Type := StateT (List UInt8) (Except ε)

theorem bind_ok {σ : Type} {x : StateT σ (Except ε) α} {f : α → StateT σ (Except ε) β} {s t : σ}
    {b : β} (h : (x >>= f) s = .ok (b, t)) :
    ∃ a m, x s = .ok (a, m) ∧ f a m = .ok (b, t) := by
  simp only [bind, StateT.bind, Except.bind] at h
  split at h
  · cases h
  · rename_i p hp
    exact ⟨p.1, p.2, hp, h⟩

theorem bind_of_ok {σ : Type} {x : StateT σ (Except ε) α} {f : α → StateT σ (Except ε) β} {s m : σ}
    {a : α} (h : x s = .ok (a, m)) : (x >>= f) s = f a m := by
  simp only [bind, StateT.bind, h, Except.bind]

theorem bind_of_error {σ : Type} {x : StateT σ (Except ε) α} {f : α → StateT σ (Except ε) β} {s : σ}
    {e : ε} (h : x s = .error e) : (x >>= f) s = .error e := by
  simp only [bind, StateT.bind, h, Except.bind]

/-- `w` succeeds and adds exactly `xs`. -/
def Appends (w : Writer ε Unit) (xs : List UInt8) : Prop := ∀ out, w out = .ok ((), out ++ xs)

/-- `r` reads `a` off any input that begins with `xs` and consumes exactly `xs`. -/
def Reads (r : Reader ε α) (xs : List UInt8) (a : α) : Prop := ∀ rest, r (xs ++ rest) = .ok (a, rest)

/-- Whatever `w` manages to write, `r` reads back as `a`. -/
def Inverts (w : Writer ε Unit) (r : Reader ε α) (a : α) : Prop :=
  ∀ out out', w out = .ok ((), out') → ∃ xs, out' = out ++ xs ∧ Reads r xs a

/-- A successful run of `r` consumes bytes that stand in the relation `P` to its result. -/
def Consumes (r : Reader ε α) (P : α → List UInt8 → Prop) : Prop :=
  ∀ inp a rest, r inp = .ok (a, rest) → ∃ xs, inp = xs ++ rest ∧ P a xs

theorem Appends.nil : Appends (pure () : Writer ε Unit) [] := by
  intro out
  rw [List.append_nil]
  rfl

theorem Appends.seq {w w' : Writer ε Unit} {xs ys : List UInt8} (h : Appends w xs)
    (h' : Appends w' ys) : Appends (w >>= fun _ => w') (xs ++ ys) := by
  intro out
  rw [bind_of_ok (h out), h', List.append_assoc]

theorem Appends.inj {w : Writer ε Unit} {xs ys : List UInt8} (h : Appends w xs)
    (h' : Appends w ys) : xs = ys := by
  have hout := (h []).symm.trans (h' [])
  simpa using hout

theorem Reads.pure (a : α) : Reads (pure a : Reader ε α) [] a := fun _ => rfl

theorem Reads.bind {r : Reader ε α} {f : α → Reader ε β} {xs ys : List UInt8} {a : α} {b : β}
    (h : Reads r xs a) (h' : Reads (f a) ys b) : Reads (r >>= f) (xs ++ ys) b := by
  intro rest
  rw [List.append_assoc, bind_of_ok (h _), h']

theorem Reads.map {r : Reader ε α} {xs : List UInt8} {a : α} (h : Reads r xs a) (f : α → β) :
    Reads (r >>= fun x => Pure.pure (f x)) xs (f a) := by
  intro rest
  rw [bind_of_ok (h rest)]
  rfl

/-! ## The rules of the two directions -/

theorem Inverts.of_appends {w : Writer ε Unit} {r : Reader ε α} {xs : List UInt8} {a : α}
    (h : Appends w xs) (h' : Reads r xs a) : Inverts w r a := by
  intro out out' hw
  rw [h out] at hw
  cases hw
  exact ⟨xs, rfl, h'⟩

theorem Inverts.bind {w w' : Writer ε Unit} {r : Reader ε α} {f : α → Reader ε β} {a : α} {b : β}
    (h : Inverts w r a) (h' : Inverts w' (f a) b) :
    Inverts (w >>= fun _ => w') (r >>= f) b := by
  intro out out' hw
  obtain ⟨_, mid, hw, hw'⟩ := bind_ok hw
  obtain ⟨xs, rfl, hxs⟩ := h out mid hw
  obtain ⟨ys, rfl, hys⟩ := h' _ out' hw'
  exact ⟨xs ++ ys, List.append_assoc .., hxs.bind hys⟩

theorem Inverts.last {w : Writer ε Unit} {r : Reader ε α} {f : α → Reader ε β} {a : α} {b : β}
    (h : Inverts w r a) (h' : f a = Pure.pure b) : Inverts w (r >>= f) b := by
  intro out out' hw
  obtain ⟨xs, rfl, hxs⟩ := h out out' hw
  refine ⟨xs, rfl, ?_⟩
  intro rest
  rw [bind_of_ok (hxs rest), h']
  rfl

theorem Inverts.map {w : Writer ε Unit} {r : Reader ε α} {a : α} (h : Inverts w r a) (f : α → β) :
    Inverts w (r >>= fun x => Pure.pure (f x)) (f a) := h.last rfl

theorem Consumes.pure {P : α → List UInt8 → Prop} {a : α} (h : P a []) :
    Consumes (pure a : Reader ε α) P := by
  intro inp b rest hr
  cases hr
  exact ⟨[], rfl, h⟩

theorem Consumes.throw {P : α → List UInt8 → Prop} {e : ε} :
    Consumes (throw e : Reader ε α) P := by
  intro inp b rest hr
  cases hr

theorem Consumes.bind {r : Reader ε α} {f : α → Reader ε β} {P : α → List UInt8 → Prop}
    {R : β → List UInt8 → Prop} (h : Consumes r P)
    (h' : ∀ a xs, P a xs → Consumes (f a) fun b ys => R b (xs ++ ys)) : Consumes (r >>= f) R := by
  intro inp b rest hr
  obtain ⟨a, mid, ha, hb⟩ := bind_ok hr
  obtain ⟨xs, rfl, hxs⟩ := h inp a mid ha
  obtain ⟨ys, rfl, hys⟩ := h' a xs hxs mid b rest hb
  exact ⟨xs ++ ys, (List.append_assoc ..).symm, hys⟩

theorem Consumes.mono {r : Reader ε α} {P Q : α → List UInt8 → Prop} (h : Consumes r P)
    (hPQ : ∀ a xs, P a xs → Q a xs) : Consumes r Q := by
  intro inp a rest hr
  obtain ⟨xs, hinp, hxs⟩ := h inp a rest hr
  exact ⟨xs, hinp, hPQ a xs hxs⟩

/-- Reading is canonical when what is consumed is what `w` writes of the result. -/
def Canonical (w : α → Writer ε Unit) (r : Reader ε α) : Prop :=
  Consumes r fun a xs => Appends (w a) xs

/-! ## Self-delimiting readers -/

/-- On everything shorter than `xs` that `xs` begins with, `r` fails with a `bad` error. -/
def FailsShort (bad : ε → Prop) (r : Reader ε α) (xs : List UInt8) : Prop :=
  ∀ p y ys, xs = p ++ y :: ys → ∃ e, r p = .error e ∧ bad e

/-- What a successful run of `r` consumes determines its result, and no part of it is enough. -/
def Delimited (bad : ε → Prop) (r : Reader ε α) : Prop :=
  Consumes r fun a xs => Reads r xs a ∧ FailsShort bad r xs

theorem FailsShort.nil {bad : ε → Prop} {r : Reader ε α} : FailsShort bad r [] := by
  intro p y ys h
  have hlen := congrArg List.length h
  simp at hlen

/-- A cut falls into what the first stage consumes or, after all of it, into what the second one
consumes. -/
theorem FailsShort.bind {bad : ε → Prop} {r : Reader ε α} {f : α → Reader ε β} {xs ys : List UInt8}
    {a : α} (hr : Reads r xs a) (h : FailsShort bad r xs) (h' : FailsShort bad (f a) ys) :
    FailsShort bad (r >>= f) (xs ++ ys) := by
  intro p z zs hsplit
  have hsecond : ∀ q, ys = q ++ z :: zs → ∃ e, (r >>= f) (xs ++ q) = .error e ∧ bad e := by
    intro q hq
    rw [bind_of_ok (hr q)]
    exact h' q z zs hq
  obtain ⟨q, hxs, hq⟩ | ⟨q, rfl, hq⟩ := List.append_eq_append_iff.mp hsplit.symm
  · cases q with
    | nil =>
      have hp : p = xs ++ [] := by simpa using hxs.symm
      rw [hp]
      exact hsecond [] hq.symm
    | cons w q =>
      obtain ⟨e, he, hbad⟩ := h p w q hxs
      exact ⟨e, bind_of_error he, hbad⟩
  · exact hsecond q hq

section Delimited

variable {bad : ε → Prop}

theorem Delimited.pure (a : α) : Delimited bad (pure a : Reader ε α) :=
  Consumes.pure ⟨.pure a, .nil⟩

theorem Delimited.throw (e : ε) : Delimited bad (throw e : Reader ε α) :=
  Consumes.throw

theorem Delimited.bind {r : Reader ε α} {f : α → Reader ε β} (h : Delimited bad r)
    (h' : ∀ a, Delimited bad (f a)) : Delimited bad (r >>= f) := by
  apply Consumes.bind h
  rintro a xs ⟨hread, hshort⟩
  apply (h' a).mono
  rintro b ys ⟨hread', hshort'⟩
  exact ⟨hread.bind hread', hshort.bind hread hshort'⟩

theorem Delimited.map {r : Reader ε α} (h : Delimited bad r) (f : α → β) :
    Delimited bad (r >>= fun a => Pure.pure (f a)) :=
  h.bind fun a => .pure (f a)

theorem Delimited.ite {c : Prop} [Decidable c] {r r' : Reader ε α} (h : Delimited bad r)
    (h' : Delimited bad r') : Delimited bad (if c then r else r') := by
  split
  · exact h
  · exact h'

end Delimited

/-- `r'` succeeds wherever `r` does, and in the same way. -/
def Extends (r r' : Reader ε α) : Prop :=
  ∀ inp a rest, r inp = .ok (a, rest) → r' inp = .ok (a, rest)

theorem Extends.refl (r : Reader ε α) : Extends r r := fun _ _ _ h => h

theorem Extends.bind {r r' : Reader ε α} {f f' : α → Reader ε β} (h : Extends r r')
    (h' : ∀ a, Extends (f a) (f' a)) : Extends (r >>= f) (r' >>= f') := by
  intro inp b rest hr
  obtain ⟨a, mid, ha, hb⟩ := bind_ok hr
  rw [bind_of_ok (h inp a mid ha)]
  exact h' a mid b rest hb

theorem Extends.after (r : Reader ε α) {f f' : α → Reader ε β} (h : ∀ a, Extends (f a) (f' a)) :
    Extends (r >>= f) (r >>= f') :=
  (Extends.refl r).bind h

/-! ## Repetition -/

/-- `w` for each element of a list, in order. -/
def writeAll (w : α → Writer ε Unit) : List α → Writer ε Unit
  | [] => pure ()
  | a :: as => do
    w a
    writeAll w as

/-- `r` run `n` times. -/
def readMany (r : Reader ε α) : Nat → Reader ε (List α)
  | 0 => pure []
  | n + 1 => do
    let a ← r
    let as ← readMany r n
    pure (a :: as)

theorem Inverts.all {w : α → Writer ε Unit} {r : Reader ε α} {as : List α}
    (h : ∀ a ∈ as, Inverts (w a) r a) : Inverts (writeAll w as) (readMany r as.length) as := by
  induction as with
  | nil => exact .of_appends .nil (.pure [])
  | cons a as ih =>
    have htail := ih fun b hb => h b (List.mem_cons_of_mem a hb)
    exact (h a (List.mem_cons_self ..)).bind (htail.map fun bs => a :: bs)

theorem Canonical.many {w : α → Writer ε Unit} {r : Reader ε α} (h : Canonical w r) (n : Nat) :
    Consumes (readMany r n) fun as xs => as.length = n ∧ Appends (writeAll w as) xs := by
  induction n with
  | zero => exact .pure ⟨rfl, .nil⟩
  | succ n ih =>
    apply h.bind
    intro a xs hxs
    apply ih.bind
    rintro as ys ⟨hlen, hys⟩
    refine .pure ⟨by rw [List.length_cons, hlen], ?_⟩
    rw [List.append_nil]
    exact hxs.seq hys

theorem Delimited.many {bad : ε → Prop} {r : Reader ε α} (h : Delimited bad r) (n : Nat) :
    Delimited bad (readMany r n) := by
  induction n with
  | zero => exact .pure []
  | succ n ih => exact h.bind fun a => ih.map fun as => a :: as

end Wire
