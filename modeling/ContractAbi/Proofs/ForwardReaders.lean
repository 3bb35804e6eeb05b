import ContractAbi.Proofs.Decoding

/-!
# Readers move forward

A reader is handed the bytes after the offset and answers a value with the bytes after it. It
moves forward when the bytes it leaves are a suffix of the bytes it was given (`Reader.Forward`).
Every scalar reader moves forward, and so does every composite of readers that do: a reader
after a reader, a count-prefixed list of items, named fields one after the other. Hence nested
reading of every type moves forward, over any catalog and with any fuel.
-/

namespace ContractAbi

namespace Wire

/-- A reader moves forward: when it succeeds, the bytes it leaves are a suffix of the bytes it
was given. -/
def Reader.Forward {α : Type} (r : Reader α) : Prop :=
  ∀ bs a rest, r bs = .ok (a, rest) → rest <:+ bs

namespace Reader.Forward

variable {α β : Type}

theorem pure (a : α) : (Reader.pure a).Forward := by
  intro bs a' rest h
  cases h
  exact List.suffix_refl bs

theorem fail (e : WireError) : (Reader.fail e : Reader α).Forward := by
  intro bs a rest h
  cases h

theorem bind {r : Reader α} {f : α → Reader β} (hr : r.Forward) (hf : ∀ a, (f a).Forward) :
    (r.bind f).Forward := by
  intro bs b rest h
  unfold Reader.bind at h
  split at h
  · rename_i a mid hmid
    exact (hf a mid b rest h).trans (hr bs a mid hmid)
  · cases h

theorem map {r : Reader α} (f : α → β) (hr : r.Forward) : (r.map f).Forward := by
  intro bs b rest h
  unfold Reader.map at h
  split at h
  · rename_i a mid hmid
    cases h
    exact hr bs a _ hmid
  · cases h

end Reader.Forward

/-! ## Scalar reads -/

section Scalars

open Reader.Forward

theorem take_forward (n : Nat) : (take n).Forward := by
  intro bs v rest h
  obtain ⟨happ, -⟩ := take_length h
  exact ⟨v, happ⟩

theorem readFixed_forward (w : Nat) : (readFixed w).Forward :=
  map _ (take_forward w)

theorem readBool_forward : readBool.Forward := by
  intro bs b rest h
  unfold readBool at h
  split at h
  · split at h
    · cases h
      exact take_forward 1 bs _ _ ‹_›
    · split at h <;> cases h
      exact take_forward 1 bs _ _ ‹_›
  · cases h
    exact take_forward 1 bs _ _ ‹_›
  · cases h

theorem readBytes_forward : readBytes.Forward :=
  bind (readFixed_forward 4) take_forward

theorem readString_forward : readString.Forward := by
  refine bind readBytes_forward fun bytes bs s rest h => ?_
  split at h <;> cases h
  exact List.suffix_refl bs

theorem readBigUint_forward : readBigUint.Forward :=
  map _ readBytes_forward

theorem readBigInt_forward : readBigInt.Forward :=
  map _ readBytes_forward

theorem readAddress_forward : readAddress.Forward :=
  take_forward addressLength

end Scalars

/-! ## Composite reads -/

section Composites

open Reader.Forward

variable {α : Type}

theorem readMany_forward {item : Reader α} (hi : item.Forward) : ∀ n, (readMany item n).Forward
  | 0 => pure _
  | n + 1 => bind hi fun _ => map _ (readMany_forward hi n)

theorem readList_forward {item : Reader α} (hi : item.Forward) : (readList item).Forward :=
  bind (readFixed_forward 4) (readMany_forward hi)

/-- Named reads one after the other move forward when each of them does. -/
theorem readNamed_forward {items : List (String × Reader Value)} (h : ∀ it ∈ items, it.2.Forward) :
    (readNamed items).Forward :=
  readNamed_induction _ _ (pure _) (fun _ _ _ hacc hr => bind hacc fun _ => map _ hr) h

theorem nestedPrimitive_forward : ∀ p : Primitive, (nestedPrimitive p).Forward
  | .bool => map _ readBool_forward
  | .u8 | .u16 | .u32 | .u64 => map _ (readFixed_forward _)
  | .bigUint => map _ readBigUint_forward
  | .bigInt => map _ readBigInt_forward
  | .bytes => map _ readBytes_forward
  | .utf8String | .tokenIdentifier | .egldOrEsdtTokenIdentifier => map _ readString_forward
  | .address => map _ readAddress_forward

/-- Nested reading of every type moves forward, over any catalog and with any fuel. -/
theorem nestedValue_forward (c : Catalog) : ∀ (fuel : Nat) (ty : ResolvedType),
    (nestedValue c fuel ty).Forward
  | 0, _ => fail _
  | fuel + 1, ty => by
    cases ty with
    | primitive p => exact nestedPrimitive_forward p
    | enum n =>
      refine bind (readFixed_forward 1) fun d bs v rest h => ?_
      cases hv : enumValue c n d with
      | error err =>
        rw [hv] at h
        cases h
      | ok v' =>
        rw [hv] at h
        cases h
        exact List.suffix_refl bs
    | record n =>
      simp only [nestedValue]
      split
      · exact fail _
      · refine map _ (readNamed_forward fun it hit => ?_)
        obtain ⟨f, -, rfl⟩ := List.mem_map.1 hit
        exact nestedValue_forward c fuel f.type
    | tuple n ms =>
      refine map _ (readNamed_forward fun it hit => ?_)
      obtain ⟨⟨k, m⟩, -, rfl⟩ := List.mem_map.1 hit
      exact nestedValue_forward c fuel m
    | list i => exact map _ (readList_forward (nestedValue_forward c fuel i))
    | variadic | multiVariadic | multi => exact fail _

end Composites

end Wire

end ContractAbi
