import ContractAbi.Proofs.AtomicReads

/-!
# The decoder computes the readers

Nested reading has two descriptions: the decoder, which moves an offset through one slot, and the
readers, which take the bytes after the offset and answer a value with the bytes after it. A read
computes a reader when, from a decoder within its slot, it gives what the reader gives on the
bytes after the offset (`Decode.Computes`): the same value and the bytes after the offset it
reached, or the same failure.

Each read of the decoder computes its reader, a read after a read computes the reader after the
reader, and so nested decoding of every type computes nested reading. Hence `nested`, which runs
the decoder, equals nested reading with the same fuel (`nested_eq_nestedValue`), and what is
proved of the readers holds of the decoder.
-/

namespace ContractAbi.Wire

variable {α β γ : Type}

open NestedDecoder Decode

/-! ## Readers -/

namespace Reader

theorem map_map (r : Reader α) (f : α → β) (g : β → γ) : (r.map f).map g = r.map (g ∘ f) := by
  funext bs
  simp only [Reader.map]
  cases r bs <;> rfl

theorem bind_map (r : Reader α) (f : α → β) (g : β → Reader γ) :
    (r.map f).bind g = r.bind (g ∘ f) := by
  funext bs
  simp only [Reader.map, Reader.bind]
  cases r bs <;> rfl

theorem map_bind (r : Reader α) (f : α → Reader β) (g : β → γ) :
    (r.bind f).map g = r.bind fun a => (f a).map g := by
  funext bs
  simp only [Reader.map, Reader.bind]
  cases r bs <;> rfl

end Reader

theorem readFixed_one : readFixed 1 = (take 1).map fun bs => (bs.headD 0).toNat := by
  funext bs
  cases bs with
  | nil => rfl
  | cons b rest => simp [readFixed, take, Reader.map, natOfBytes]

/-- A boolean is the byte taken, then a check of its value. -/
theorem readBool_eq : readBool = ((take 1).map (·.headD 0)).bind fun b =>
    if b = 0 then Reader.pure false else if b = 1 then Reader.pure true
    else Reader.fail (.invalidBool b) := by
  funext bs
  cases bs with
  | nil => rfl
  | cons b rest =>
    simp only [readBool, take, Reader.map, Reader.bind, List.length_cons]
    simp only [Nat.le_add_left, if_true, List.take_succ_cons, List.take_zero, List.drop_succ_cons,
      List.drop_zero, List.headD_cons]
    split
    · rfl
    · split <;> rfl

/-! ## Reads that compute readers -/

/-- A read computes a reader: from a decoder within its slot, it gives what the reader gives on
the bytes after the offset. -/
def Decode.Computes (read : Decode α) (r : Reader α) : Prop :=
  ∀ d : NestedDecoder, d.offset ≤ d.data.length → answer (read d) = r (d.data.drop d.offset)

namespace Decode.Computes

variable {x : Decode α} {rx : Reader α} {f : α → Decode β} {rf : α → Reader β}

theorem pure (a : α) : (pure a : Decode α).Computes (Reader.pure a) :=
  fun _ _ => rfl

theorem throw (e : WireError) : (throw e : Decode α).Computes (Reader.fail e) :=
  fun _ _ => rfl

theorem ofExcept (r : Except WireError α) : (ofExcept r).Computes fun bs => r.map (·, bs) := by
  intro d _
  cases r <;> rfl

theorem bind (hx : x.Forward) (hcx : x.Computes rx) (hf : ∀ a, (f a).Computes (rf a)) :
    (x >>= f).Computes (rx.bind rf) := by
  intro d hd
  have hr := hcx d hd
  simp only [Reader.bind]
  cases hxd : x d with
  | ok a d₁ =>
    rw [hxd] at hr
    rw [bind_ok hxd, ← hr]
    exact hf a d₁ (advances_of_ok hx hd hxd).within
  | error e d₁ =>
    rw [hxd] at hr
    rw [bind_error hxd, ← hr]
    rfl

theorem map (g : α → β) (hcx : x.Computes rx) : (g <$> x).Computes (rx.map g) := by
  intro d hd
  have hr := hcx d hd
  simp only [Reader.map]
  cases hxd : x d with
  | ok a d₁ =>
    rw [hxd] at hr
    rw [map_ok g hxd, ← hr]
    rfl
  | error e d₁ =>
    rw [hxd] at hr
    rw [map_error g hxd, ← hr]
    rfl

/-- Putting the offset back after a failure changes nothing a reader sees. -/
theorem readWith (hcx : x.Computes rx) : (readWith x).Computes rx := by
  intro d hd
  rw [← hcx d hd]
  cases hxd : x d with
  | ok a d₁ => rw [readWith_ok hxd]
  | error e d₁ =>
    rw [readWith_error hxd]
    rfl

end Decode.Computes

namespace NestedDecoder

theorem take_computes (n : Nat) : (take n).Computes (Wire.take n) := by
  intro d _
  have hlen : (d.data.drop d.offset).length = d.remaining := List.length_drop
  simp only [take, Wire.take, hlen]
  by_cases hn : d.remaining < n
  · rw [if_pos hn, if_neg (Nat.not_le.2 hn)]
    rfl
  · rw [if_neg hn, if_pos (Nat.le_of_not_lt hn)]
    simp [Decode.answer, List.drop_drop]

theorem readU8_computes : readU8.Computes ((Wire.take 1).map (·.headD 0)) :=
  (take_computes 1).map _

theorem readUnsigned_computes (width : Nat) : (readUnsigned width).Computes (readFixed width) :=
  (take_computes width).map _

theorem readLen_computes : readLen.Computes readLength :=
  readUnsigned_computes 4

theorem readBool_computes : readBool.Computes Wire.readBool := by
  rw [readBool_eq]
  refine (readU8_computes.bind readU8_atomic.forward fun b => ?_).readWith
  split
  · exact .pure _
  · split
    · exact .pure _
    · exact .throw _

theorem readBytes_computes : readBytes.Computes Wire.readBytes :=
  (readLen_computes.bind readLen_atomic.forward take_computes).readWith

theorem readString_computes : readString.Computes Wire.readString := by
  refine (readBytes_computes.bind readBytes_atomic.forward fun bytes => ?_).readWith
  intro d _
  cases Text.decodeUtf8 bytes <;> rfl

theorem readBigUint_computes : readBigUint.Computes Wire.readBigUint := by
  rw [Wire.readBigUint, Wire.readBytes, Reader.map_bind]
  exact (readLen_computes.bind readLen_atomic.forward fun n => (take_computes n).map _).readWith

theorem readBigInt_computes : readBigInt.Computes Wire.readBigInt := by
  rw [Wire.readBigInt, Wire.readBytes, Reader.map_bind]
  exact (readLen_computes.bind readLen_atomic.forward fun n => (take_computes n).map _).readWith

theorem readAddress_computes : readAddress.Computes Wire.readAddress :=
  take_computes addressLength

section Composites

variable {item : Decode α} {r : Reader α}

theorem readMany_computes (hi : item.Forward) (hc : item.Computes r) :
    ∀ n, (readMany item n).Computes (Wire.readMany r n)
  | 0 => .pure _
  | n + 1 => hc.bind hi fun _ => (readMany_computes hi hc n).map _

theorem readList_computes (hi : item.Forward) (hc : item.Computes r) :
    (readList item).Computes (Wire.readList r) :=
  (readLen_computes.bind readLen_atomic.forward (readMany_computes hi hc)).readWith

/-- Named reads one after the other compute the named readers, when each read moves forward and
computes its reader. The induction carries any accumulator that does both. -/
theorem readNamed_computes (xs : List γ) (name : γ → String) (dec : γ → Decode Value)
    (rd : γ → Reader Value) (h : ∀ x ∈ xs, (dec x).Forward ∧ (dec x).Computes (rd x)) :
    (readNamed (xs.map fun x => (name x, dec x))).Computes
      (Wire.readNamed (xs.map fun x => (name x, rd x))) := by
  unfold readNamed Wire.readNamed
  have hf : (pure [] : Decode (List (String × Value))).Forward := .pure _
  have hc : (pure [] : Decode (List (String × Value))).Computes (Reader.pure []) := .pure _
  revert hf hc
  generalize (pure [] : Decode (List (String × Value))) = start
  generalize (Reader.pure [] : Reader (List (String × Value))) = rstart
  induction xs generalizing start rstart with
  | nil => exact fun _ hc => hc
  | cons x xs ih =>
    intro hf hc
    obtain ⟨hxf, hxc⟩ := h x List.mem_cons_self
    exact ih (fun y hy => h y (List.mem_cons_of_mem _ hy)) _ _ (hf.bind fun _ => hxf.map _)
      (hc.bind hf fun _ => hxc.map _)

end Composites

theorem nestedDecodePrimitive_computes :
    ∀ p : Primitive, (nestedDecodePrimitive p).Computes (nestedPrimitive p)
  | .bool => readBool_computes.map _
  | .u8 => by
    have h := readU8_computes.map fun b => Value.unsigned b.toNat
    rw [Reader.map_map] at h
    rw [nestedPrimitive, readFixed_one, Reader.map_map]
    exact h
  | .u16 | .u32 | .u64 => (readUnsigned_computes _).map _
  | .bigUint => readBigUint_computes.map _
  | .bigInt => readBigInt_computes.map _
  | .bytes => readBytes_computes.map _
  | .utf8String | .tokenIdentifier | .egldOrEsdtTokenIdentifier => readString_computes.map _
  | .address => readAddress_computes.map _

/-- Nested decoding computes nested reading, over any catalog and with any fuel. -/
theorem nestedDecode_computes (c : Catalog) : ∀ (fuel : Nat) (ty : ResolvedType),
    (nestedDecode c fuel ty).Computes (Wire.nestedValue c fuel ty)
  | 0, _ => .throw _
  | fuel + 1, ty => by
    cases ty with
    | primitive p => exact nestedDecodePrimitive_computes p
    | enum n =>
      have h := (readU8_computes.bind readU8_atomic.forward fun b =>
        Computes.ofExcept (enumValue c n b.toNat)).readWith
      rw [Reader.bind_map] at h
      rw [Wire.nestedValue, readFixed_one, Reader.bind_map]
      exact h
    | record n =>
      cases hget : c.records.get? n with
      | none =>
        simp only [nestedDecode, Wire.nestedValue, hget]
        exact .throw _
      | some fs =>
        simp only [nestedDecode, Wire.nestedValue, hget]
        refine ((readNamed_computes fs (·.name) (fun f => nestedDecode c fuel f.type)
          (fun f => Wire.nestedValue c fuel f.type) fun f _ => ?_).map _).readWith
        exact ⟨(nestedDecode_atomic c fuel f.type).forward, nestedDecode_computes c fuel f.type⟩
    | tuple n ms =>
      refine ((readNamed_computes (numbered ms) Prod.fst (fun km => nestedDecode c fuel km.2)
        (fun km => Wire.nestedValue c fuel km.2) fun km _ => ?_).map _).readWith
      exact ⟨(nestedDecode_atomic c fuel km.2).forward, nestedDecode_computes c fuel km.2⟩
    | list i =>
      exact (readList_computes (nestedDecode_atomic c fuel i).forward
        (nestedDecode_computes c fuel i)).map _
    | variadic | multiVariadic | multi => exact .throw _

end NestedDecoder

/-- Running the decoder gives nested reading: the same value with the same bytes after it, or
the same failure. -/
theorem nested_eq_nestedValue (c : Catalog) (ty : ResolvedType) (bs : List UInt8) :
    nested c ty bs = nestedValue c (nestedFuel c ty bs.length) ty bs :=
  nestedDecode_computes c _ ty ⟨bs, 0⟩ (Nat.zero_le _)

end ContractAbi.Wire
