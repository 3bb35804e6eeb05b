import ContractAbi.Wire.Outputs

/-!
# Nested reads are atomic

A nested decoder reads one slot through an offset. A read moves forward when, started within its
slot, it leaves the decoder over the same slot at an offset no lower and not past the end,
whether it answers or fails (`Decode.Forward`). It is atomic when a failure moreover leaves the
offset where it was (`Decode.Atomic`).

`take` checks before it moves, so it is atomic. A read after a read moves forward when both do,
and `readWith` puts the offset back after any failure, so it makes every read that moves forward
atomic. Hence every scalar read is atomic, so is a count-prefixed list of items that move
forward, and so is nested decoding of every type over every catalog with any fuel. The offset
never passes the end, so the bytes remaining and the offset add up to the slot's length.

Main statement: `nested_reads_are_atomic`.
-/

namespace ContractAbi.Wire

variable {α β : Type}

namespace NestedDecoder

/-- A decoder over the same slot as `d`, at an offset no lower and not past the end. -/
structure Advances (d d' : NestedDecoder) : Prop where
  data_eq : d'.data = d.data
  offset_le : d.offset ≤ d'.offset
  le_length : d'.offset ≤ d.data.length

variable {d d₁ d₂ : NestedDecoder}

theorem Advances.refl (h : d.offset ≤ d.data.length) : d.Advances d :=
  ⟨rfl, Nat.le_refl _, h⟩

theorem Advances.trans (h₁ : d.Advances d₁) (h₂ : d₁.Advances d₂) : d.Advances d₂ :=
  ⟨h₂.data_eq.trans h₁.data_eq, Nat.le_trans h₁.offset_le h₂.offset_le,
    h₁.data_eq ▸ h₂.le_length⟩

theorem Advances.within (h : d.Advances d₁) : d₁.offset ≤ d₁.data.length :=
  h.data_eq ▸ h.le_length

theorem remaining_add_offset (h : d.offset ≤ d.data.length) :
    d.remaining + d.offset = d.data.length := by
  unfold remaining
  omega

end NestedDecoder

open NestedDecoder

namespace Decode

/-- The decoder a read leaves, whether it answers or fails. -/
def after : EStateM.Result WireError NestedDecoder α → NestedDecoder
  | .ok _ d | .error _ d => d

/-- A read moves forward: started within its slot, it leaves the decoder over the same slot, no
earlier and not past the end, whether it answers or fails. -/
def Forward (read : Decode α) : Prop :=
  ∀ d : NestedDecoder, d.offset ≤ d.data.length → d.Advances (after (read d))

/-- An atomic read moves forward, and a failure leaves the offset where it was. -/
structure Atomic (read : Decode α) : Prop where
  forward : read.Forward
  restores : ∀ d e d', read d = .error e d' → d'.offset = d.offset

variable {x : Decode α} {f : α → Decode β} {d d' : NestedDecoder} {a : α} {e : WireError}

theorem bind_ok (h : x d = .ok a d') : (x >>= f) d = f a d' := by
  show EStateM.bind x f d = _
  rw [EStateM.bind, h]

theorem bind_error (h : x d = .error e d') : (x >>= f) d = .error e d' := by
  show EStateM.bind x f d = _
  rw [EStateM.bind, h]

theorem map_ok (g : α → β) (h : x d = .ok a d') : (g <$> x) d = .ok (g a) d' := by
  show EStateM.map g x d = _
  rw [EStateM.map, h]

theorem map_error (g : α → β) (h : x d = .error e d') : (g <$> x) d = .error e d' := by
  show EStateM.map g x d = _
  rw [EStateM.map, h]

theorem advances_of_ok (hx : x.Forward) (hd : d.offset ≤ d.data.length) (h : x d = .ok a d') :
    d.Advances d' := by
  have hadv := hx d hd
  rwa [h] at hadv

theorem advances_of_error (hx : x.Forward) (hd : d.offset ≤ d.data.length)
    (h : x d = .error e d') : d.Advances d' := by
  have hadv := hx d hd
  rwa [h] at hadv

namespace Forward

theorem pure (a : α) : (pure a : Decode α).Forward :=
  fun _ hd => .refl hd

theorem throw (e : WireError) : (throw e : Decode α).Forward :=
  fun _ hd => .refl hd

theorem ofExcept (r : Except WireError α) : (ofExcept r).Forward := by
  intro d hd
  cases r <;> exact .refl hd

theorem bind (hx : x.Forward) (hf : ∀ a, (f a).Forward) : (x >>= f).Forward := by
  intro d hd
  cases hxd : x d with
  | ok a d₁ =>
    have h₁ := advances_of_ok hx hd hxd
    rw [bind_ok hxd]
    exact h₁.trans (hf a d₁ h₁.within)
  | error e d₁ =>
    rw [bind_error hxd]
    exact advances_of_error hx hd hxd

theorem map (g : α → β) (hx : x.Forward) : (g <$> x).Forward := by
  intro d hd
  cases hxd : x d with
  | ok a d₁ =>
    rw [map_ok g hxd]
    exact advances_of_ok hx hd hxd
  | error e d₁ =>
    rw [map_error g hxd]
    exact advances_of_error hx hd hxd

end Forward

end Decode

open Decode

namespace NestedDecoder

variable {read : Decode α} {d d' : NestedDecoder} {a : α} {e : WireError}

theorem readWith_ok (h : read d = .ok a d') : readWith read d = .ok a d' := by
  simp only [readWith, h]

theorem readWith_error (h : read d = .error e d') :
    readWith read d = .error e { d' with offset := d.offset } := by
  simp only [readWith, h]

/-- Whatever the read, a failure under `readWith` leaves the offset where it was. -/
theorem readWith_restores (read : Decode α) :
    ∀ d e d', readWith read d = .error e d' → d'.offset = d.offset := by
  intro d e d' h
  cases hr : read d with
  | ok a d₁ =>
    rw [readWith_ok hr] at h
    cases h
  | error e₁ d₁ =>
    rw [readWith_error hr] at h
    cases h
    rfl

end NestedDecoder

theorem Decode.Forward.readWith {read : Decode α} (hr : read.Forward) :
    (NestedDecoder.readWith read).Forward := by
  intro d hd
  cases hrd : read d with
  | ok a d₁ =>
    rw [readWith_ok hrd]
    exact advances_of_ok hr hd hrd
  | error e d₁ =>
    rw [readWith_error hrd]
    exact ⟨(advances_of_error hr hd hrd).data_eq, Nat.le_refl _, hd⟩

/-- A read that moves forward is atomic under `readWith`. -/
theorem NestedDecoder.readWith_atomic {read : Decode α} (hr : read.Forward) :
    (readWith read).Atomic :=
  ⟨hr.readWith, readWith_restores read⟩

namespace Decode.Atomic

variable {x : Decode α}

theorem map (g : α → β) (hx : x.Atomic) : (g <$> x).Atomic := by
  refine ⟨hx.forward.map g, fun d e d' h => ?_⟩
  cases hxd : x d with
  | ok a d₁ =>
    rw [map_ok g hxd] at h
    cases h
  | error e₁ d₁ =>
    rw [map_error g hxd] at h
    injection h with _ hd
    rw [← hd]
    exact hx.restores d e₁ d₁ hxd

theorem throw (e : WireError) : (throw e : Decode α).Atomic := by
  refine ⟨.throw e, fun d e' d' h => ?_⟩
  cases h
  rfl

end Decode.Atomic

/-! ## Scalar reads -/

namespace NestedDecoder

/-- `take` checks that enough bytes remain before it moves. -/
theorem take_atomic (n : Nat) : (take n).Atomic := by
  refine ⟨fun d hd => ?_, fun d e d' h => ?_⟩
  · simp only [take]
    split
    · exact .refl hd
    · rename_i henough
      refine ⟨rfl, Nat.le_add_right _ _, ?_⟩
      unfold remaining at henough
      show d.offset + n ≤ d.data.length
      omega
  · simp only [take] at h
    split at h
    · cases h
      rfl
    · cases h

theorem readU8_atomic : readU8.Atomic :=
  (take_atomic 1).map _

theorem readUnsigned_atomic (width : Nat) : (readUnsigned width).Atomic :=
  (take_atomic width).map _

theorem readLen_atomic : readLen.Atomic :=
  readUnsigned_atomic 4

theorem readBool_atomic : readBool.Atomic := by
  refine readWith_atomic (readU8_atomic.forward.bind fun b => ?_)
  split
  · exact .pure _
  · split
    · exact .pure _
    · exact .throw _

theorem readBytes_atomic : readBytes.Atomic :=
  readWith_atomic (readLen_atomic.forward.bind fun n => (take_atomic n).forward)

theorem readString_atomic : readString.Atomic :=
  readWith_atomic (readBytes_atomic.forward.bind fun _ => .ofExcept _)

theorem readBigUint_atomic : readBigUint.Atomic :=
  readWith_atomic (readLen_atomic.forward.bind fun n => ((take_atomic n).map _).forward)

theorem readBigInt_atomic : readBigInt.Atomic :=
  readWith_atomic (readLen_atomic.forward.bind fun n => ((take_atomic n).map _).forward)

theorem readAddress_atomic : readAddress.Atomic :=
  take_atomic addressLength

/-! ## Composite reads -/

theorem readMany_forward {item : Decode α} (hi : item.Forward) : ∀ n, (readMany item n).Forward
  | 0 => .pure _
  | n + 1 => hi.bind fun _ => (readMany_forward hi n).map _

theorem readList_atomic {item : Decode α} (hi : item.Forward) : (readList item).Atomic :=
  readWith_atomic (readLen_atomic.forward.bind (readMany_forward hi))

theorem readNamed_forward {items : List (String × Decode α)} (h : ∀ it ∈ items, it.2.Forward) :
    (readNamed items).Forward := by
  unfold readNamed
  generalize hstart : (pure [] : Decode (List (String × α))) = start
  have hacc : start.Forward := hstart ▸ .pure _
  clear hstart
  induction items generalizing start with
  | nil => exact hacc
  | cons it items ih =>
    exact ih (fun it' hit => h it' (List.mem_cons_of_mem _ hit)) _
      (hacc.bind fun _ => (h it List.mem_cons_self).map _)

theorem nestedDecodePrimitive_atomic : ∀ p : Primitive, (nestedDecodePrimitive p).Atomic
  | .bool => readBool_atomic.map _
  | .u8 => readU8_atomic.map _
  | .u16 | .u32 | .u64 => (readUnsigned_atomic _).map _
  | .bigUint => readBigUint_atomic.map _
  | .bigInt => readBigInt_atomic.map _
  | .bytes => readBytes_atomic.map _
  | .utf8String | .tokenIdentifier | .egldOrEsdtTokenIdentifier => readString_atomic.map _
  | .address => readAddress_atomic.map _

/-- Nested decoding of every type is atomic, over any catalog and with any fuel. -/
theorem nestedDecode_atomic (c : Catalog) : ∀ (fuel : Nat) (ty : ResolvedType),
    (nestedDecode c fuel ty).Atomic
  | 0, _ => .throw _
  | fuel + 1, ty => by
    cases ty with
    | primitive p => exact nestedDecodePrimitive_atomic p
    | enum n => exact readWith_atomic (readU8_atomic.forward.bind fun _ => .ofExcept _)
    | record n =>
      simp only [nestedDecode]
      split
      · exact .throw _
      · refine readWith_atomic ((readNamed_forward fun it hit => ?_).map _)
        obtain ⟨f, -, rfl⟩ := List.mem_map.1 hit
        exact (nestedDecode_atomic c fuel f.type).forward
    | tuple n ms =>
      refine readWith_atomic ((readNamed_forward fun it hit => ?_).map _)
      obtain ⟨⟨k, m⟩, -, rfl⟩ := List.mem_map.1 hit
      exact (nestedDecode_atomic c fuel m).forward
    | list i => exact (readList_atomic (nestedDecode_atomic c fuel i).forward).map _
    | variadic | multiVariadic | multi => exact .throw _

end NestedDecoder

/-! ## Main statement -/

open NestedDecoder in
/-- Nested reads are atomic: every scalar read, `readWith` and a list over reads that move
forward, and nested decoding of every type fail in place or move forward within the slot. -/
theorem nested_reads_are_atomic :
    readU8.Atomic ∧ (∀ width, (readUnsigned width).Atomic) ∧ NestedDecoder.readBool.Atomic ∧
      NestedDecoder.readBytes.Atomic ∧ NestedDecoder.readString.Atomic ∧
      NestedDecoder.readBigUint.Atomic ∧ NestedDecoder.readBigInt.Atomic ∧
      NestedDecoder.readAddress.Atomic ∧
      (∀ {α : Type} (read : Decode α) (d : NestedDecoder) (e : WireError) (d' : NestedDecoder),
        readWith read d = .error e d' → d'.offset = d.offset) ∧
      (∀ {α : Type} (read : Decode α), read.Forward → (readWith read).Atomic) ∧
      (∀ {α : Type} (item : Decode α), item.Forward → (NestedDecoder.readList item).Atomic) ∧
      (∀ (c : Catalog) (fuel : Nat) (ty : ResolvedType), (nestedDecode c fuel ty).Atomic) ∧
      (∀ {α β : Type} (x : Decode α) (f : α → Decode β), x.Forward → (∀ a, (f a).Forward) →
        (x >>= f).Forward) ∧
      (∀ {α : Type} (read : Decode α) (d : NestedDecoder), read.Forward →
        d.offset ≤ d.data.length →
          (after (read d)).remaining + (after (read d)).offset = d.data.length) :=
  ⟨readU8_atomic, readUnsigned_atomic, readBool_atomic, readBytes_atomic, readString_atomic,
    readBigUint_atomic, readBigInt_atomic, readAddress_atomic, fun read => readWith_restores read,
    fun _ hr => readWith_atomic hr, fun _ hi => readList_atomic hi, nestedDecode_atomic,
    fun _ _ hx hf => hx.bind hf, fun read d hr hd => by
      rw [← (hr d hd).data_eq]
      exact remaining_add_offset (hr d hd).within⟩

set_option maxRecDepth 2000 in
/-- A length of four followed by two bytes: the big integer fails with the offset still at the
start, the length alone reads and moves to four, and a list of lengths is atomic. -/
theorem short_bigUint_keeps_offset :
    NestedDecoder.readBigUint ⟨[0, 0, 0, 4, 0xaa, 0xbb], 0⟩ =
        .error (.insufficientData 4 2) ⟨[0, 0, 0, 4, 0xaa, 0xbb], 0⟩ ∧
      NestedDecoder.readLen ⟨[0, 0, 0, 4, 0xaa, 0xbb], 0⟩ = .ok 4 ⟨[0, 0, 0, 4, 0xaa, 0xbb], 4⟩ ∧
      (NestedDecoder.readList NestedDecoder.readLen).Atomic :=
  ⟨rfl, rfl, nested_reads_are_atomic.2.2.2.2.2.2.2.2.2.2.1 _
    (nested_reads_are_atomic.2.1 4).forward⟩

end ContractAbi.Wire
