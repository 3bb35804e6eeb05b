import ContractAbi.Proofs.NestedRoundTrip

/-!
# Self-terminating lists

Records packed into one slot with no count are read one after the other until a position holds
no complete record. Reading stops where nothing is left, where the record fails, and where the
record read takes no byte; otherwise it keeps the record and reads on after it. So the records
read are the longest run of successive reads that each take at least one byte
(`selfTerminating_eq_iff`), and there are at most as many as the slot has bytes.

When the slot holds the nested encodings of values of one type, none of them empty, followed by
bytes where reading stops, the list read is exactly those values: each record reads exactly its
own encoding, whatever follows it, so trailing bytes neither add nor remove an element. Outputs
read through a plan and members of a group read through the same list.

Main statement: `self_terminating_lists_read_encodings`.
-/

namespace ContractAbi

namespace Wire

variable {α : Type}

/-- Reading a self-terminating list ends at `bs`: nothing is left, no record reads there, or the
record read there takes no byte. -/
def Reader.EndsAt (record : Reader α) (bs : List UInt8) : Prop :=
  bs = [] ∨ (∃ e, record bs = .error e) ∨ ∃ x after, record bs = .ok (x, after) ∧ bs.length ≤ after.length

/-- The records a self-terminating list holds from `bs` on: none where reading ends, else the
record read, which takes at least one byte, and the records after it. -/
inductive SelfTerminates (record : Reader α) : List UInt8 → List α → Prop
  | stop {bs : List UInt8} (h : record.EndsAt bs) : SelfTerminates record bs []
  | next {bs after : List UInt8} {x : α} {xs : List α} (h : record bs = .ok (x, after))
      (hlt : after.length < bs.length) (rest : SelfTerminates record after xs) :
      SelfTerminates record bs (x :: xs)

section Steps

variable {record : Reader α} {bs after : List UInt8} {x : α}

theorem selfTerminating_of_lt (h : record bs = .ok (x, after)) (hlt : after.length < bs.length) :
    selfTerminating record bs = x :: selfTerminating record after := by
  cases bs with
  | nil => simp at hlt
  | cons b rest =>
    rw [selfTerminating, h]
    simp only [hlt, dite_true]

theorem selfTerminating_of_endsAt (h : record.EndsAt bs) : selfTerminating record bs = [] := by
  rcases h with rfl | ⟨e, he⟩ | ⟨x, after, hx, hle⟩
  · exact selfTerminating_nil record
  · cases bs with
    | nil => exact selfTerminating_nil record
    | cons b rest => rw [selfTerminating, he]
  · cases bs with
    | nil => exact selfTerminating_nil record
    | cons b rest =>
      rw [selfTerminating, hx]
      simp only [Nat.not_lt.2 hle, dite_false]

end Steps

/-- The list read from `bs` is the records `SelfTerminates` gives. -/
theorem selfTerminates_selfTerminating (record : Reader α) (bs : List UInt8) :
    SelfTerminates record bs (selfTerminating record bs) := by
  induction bs using (measure List.length).wf.induction with
  | h bs ih =>
    by_cases hend : record.EndsAt bs
    · rw [selfTerminating_of_endsAt hend]
      exact .stop hend
    · obtain ⟨x, after, hx, hlt⟩ : ∃ x after, record bs = .ok (x, after) ∧ after.length < bs.length := by
        cases hr : record bs with
        | error e => exact absurd (Or.inr (Or.inl ⟨e, hr⟩)) hend
        | ok p =>
          obtain ⟨x, after⟩ := p
          exact ⟨x, after, rfl, Nat.lt_of_not_le fun hle => hend (Or.inr (Or.inr ⟨x, after, hr, hle⟩))⟩
      rw [selfTerminating_of_lt hx hlt]
      exact .next hx hlt (ih after hlt)

theorem selfTerminating_of_selfTerminates {record : Reader α} {bs : List UInt8} {xs : List α}
    (h : SelfTerminates record bs xs) : selfTerminating record bs = xs := by
  induction h with
  | stop hend => exact selfTerminating_of_endsAt hend
  | next hx hlt _ ih => rw [selfTerminating_of_lt hx hlt, ih]

/-- A self-terminating list is the longest run of successive reads that each take a byte. -/
theorem selfTerminating_eq_iff {record : Reader α} {bs : List UInt8} {xs : List α} :
    selfTerminating record bs = xs ↔ SelfTerminates record bs xs :=
  ⟨fun h => h ▸ selfTerminates_selfTerminating record bs, selfTerminating_of_selfTerminates⟩

/-- Every record read takes a byte, so a slot holds at most as many records as bytes. -/
theorem length_selfTerminating_le (record : Reader α) (bs : List UInt8) :
    (selfTerminating record bs).length ≤ bs.length := by
  have h := selfTerminates_selfTerminating record bs
  generalize selfTerminating record bs = xs at h
  induction h with
  | stop => exact Nat.zero_le _
  | next _ hlt _ ih =>
    rw [List.length_cons]
    omega

/-- Records that each read exactly their own bytes, none of them empty, followed by bytes where
reading ends, read back as themselves. -/
theorem selfTerminating_append_reads {record : Reader α} {g : List UInt8} (hg : record.EndsAt g) :
    ∀ {parts : List (α × List UInt8)}, (∀ q ∈ parts, Reads record q.2 q.1 ∧ q.2 ≠ []) →
      selfTerminating record (parts.flatMap (·.2) ++ g) = parts.map (·.1)
  | [], _ => selfTerminating_of_endsAt hg
  | q :: parts, h => by
    obtain ⟨hq, hne⟩ := h q List.mem_cons_self
    have hread := hq (parts.flatMap (·.2) ++ g)
    have hlt : (parts.flatMap (·.2) ++ g).length < (q.2 ++ (parts.flatMap (·.2) ++ g)).length := by
      have := List.length_pos_iff.2 hne
      simp only [List.length_append]
      omega
    rw [List.flatMap_cons, List.append_assoc, selfTerminating_of_lt hread hlt,
      selfTerminating_append_reads hg fun q' hq' => h q' (List.mem_cons_of_mem q hq'), List.map_cons]

end Wire

/-! ## Main statement -/

section Main

open Wire

/-- Self-terminating lists stop exactly at the end of the records: encodings followed by bytes
where reading ends read back as exactly those values. -/
theorem self_terminating_lists_read_encodings {c : Catalog} (hv : VariantsValid c.enums)
    (hf : FieldsDistinct c.records) {t : ResolvedType} (ht : t.isRecordLike = true)
    {parts : List (Value × List UInt8)} (henc : ∀ q ∈ parts, Encodes c t q.1 q.2 ∧ q.2 ≠ [])
    {g : List UInt8} (hg : (nested c t).EndsAt g) :
    selfTerminating (nested c t) (parts.flatMap (·.2) ++ g) = parts.map (·.1) ∧
    (∀ (d : Slots) (k : Nat), d.slots[k]? = some (parts.flatMap (·.2) ++ g) →
      decodeOutput c d (.list t) ⟨.selfTerminating, k⟩ = .ok (.list (parts.map (·.1)))) ∧
    memberValue c (.list t) (parts.flatMap (·.2) ++ g) = .ok (.list (parts.map (·.1))) ∧
    (∀ {α : Type} (record : Reader α) (bs : List UInt8) (xs : List α),
      selfTerminating record bs = xs ↔ SelfTerminates record bs xs) ∧
    (∀ {α : Type} (record : Reader α) (bs : List UInt8),
      (selfTerminating record bs).length ≤ bs.length) := by
  have hlist : selfTerminating (nested c t) (parts.flatMap (·.2) ++ g) = parts.map (·.1) :=
    selfTerminating_append_reads hg fun q hq =>
      ⟨fun r => nested_of_encodes hv hf (henc q hq).1 r, (henc q hq).2⟩
  refine ⟨hlist, fun d k hk => ?_, ?_, fun _ _ _ => selfTerminating_eq_iff,
    length_selfTerminating_le⟩
  · simp only [decodeOutput, Slots.selfTerminatingAt, hk, hlist]
  · simp only [memberValue, ht, if_true, hlist]

/-- A catalog with one record: an amount and the epoch it unbonds at. -/
def undelegationCatalog : Catalog where
  records := [("Undelegation", [⟨"amount", .primitive .bigUint⟩, ⟨"unbond_epoch", .primitive .u64⟩])]

/-- Three undelegations, each with its nested encoding. -/
def undelegations : List (Value × List UInt8) :=
  ([(5, 100), (6, 101), (7, 102)] : List (Nat × Nat)).map fun (a, e) =>
    (.record "Undelegation" [("amount", .bigInteger a), ("unbond_epoch", .unsigned e)],
      lengthPrefixed (bytesOfNat a) ++ bytesOfNatFixed 8 e)

/-- An undelegation is encoded as its amount's length-prefixed bytes, then its epoch in eight
bytes. -/
theorem undelegation_encodes (a e : Nat) (ha : (bytesOfNat a).length < 2 ^ 32) (he : e < 256 ^ 8) :
    Encodes undelegationCatalog (.record "Undelegation")
      (.record "Undelegation" [("amount", .bigInteger a), ("unbond_epoch", .unsigned e)])
      (lengthPrefixed (bytesOfNat a) ++ bytesOfNatFixed 8 e) := by
  have h := Encodes.record (c := undelegationCatalog) (n := "Undelegation")
    [(⟨"amount", .primitive .bigUint⟩, .bigInteger a, lengthPrefixed (bytesOfNat a)),
      (⟨"unbond_epoch", .primitive .u64⟩, .unsigned e, bytesOfNatFixed 8 e)] rfl rfl (by
      intro q hq
      simp only [List.mem_cons, List.not_mem_nil, or_false] at hq
      rcases hq with rfl | rfl
      · exact Encodes.bigUint a ha
      · exact Encodes.unsigned e rfl he)
  simpa using h

/-- Three undelegations packed into a slot and followed by three bytes that hold no length
prefix read back as themselves. -/
theorem undelegations_stop_before_garbage :
    VariantsValid undelegationCatalog.enums ∧ FieldsDistinct undelegationCatalog.records ∧
    (∀ q ∈ undelegations, Encodes undelegationCatalog (.record "Undelegation") q.1 q.2 ∧ q.2 ≠ []) ∧
    (nested undelegationCatalog (.record "Undelegation")).EndsAt [0, 0, 1] ∧
    selfTerminating (nested undelegationCatalog (.record "Undelegation"))
      (undelegations.flatMap (·.2) ++ [0, 0, 1]) = undelegations.map (·.1) := by
  have hv : VariantsValid undelegationCatalog.enums := fun _ h => by cases h
  have hf : FieldsDistinct undelegationCatalog.records := by unfold FieldsDistinct; decide
  have henc : ∀ q ∈ undelegations,
      Encodes undelegationCatalog (.record "Undelegation") q.1 q.2 ∧ q.2 ≠ [] := by
    intro q hq
    simp only [undelegations, List.map_cons, List.map_nil, List.mem_cons, List.not_mem_nil, or_false] at hq
    rcases hq with rfl | rfl | rfl <;>
      exact ⟨undelegation_encodes _ _ (by simp [bytesOfNat]) (by decide),
        List.ne_nil_of_length_pos (by simp [lengthPrefixed])⟩
  have hg : (nested undelegationCatalog (.record "Undelegation")).EndsAt [0, 0, 1] := by
    have hfail : (nested undelegationCatalog (.record "Undelegation") [0, 0, 1]).toBool = false := by
      decide
    cases h : nested undelegationCatalog (.record "Undelegation") [0, 0, 1] with
    | error e => exact Or.inr (Or.inl ⟨e, h⟩)
    | ok p => rw [h] at hfail; cases hfail
  exact ⟨hv, hf, henc, hg, (self_terminating_lists_read_encodings hv hf rfl henc hg).1⟩

end Main

end ContractAbi
