import ContractAbi.Proofs.Catalog

/-!
# Structural deduplication of composites

A registry starts from the identifiers of the declared types and grows by registration alone. This
module states what every registry so built looks like: its names are distinct synthetic names
`ComplexType{k}`, none of them reserved, each with an index at least its entry's position; each
entry's fields are some members' fields, and no two entries have the same fields. Registration
keeps that shape, and in a registry of that shape it answers the name of the one entry whose fields
are the members'. So along any sequence of registrations, equal member lists receive one name and
different member lists different names.

Main statement: `registry_deduplicates`.
-/

namespace ContractAbi

/-- Members are read back from their fields: different member lists never share fields. -/
theorem compositeFields_injective : Function.Injective compositeFields := by
  intro ms ms' h
  rw [← compositeFields_types ms, ← compositeFields_types ms', h]

namespace Registry

/-! ## Registering member lists in turn -/

/-- Registers member lists one after the other, answering the name each one receives. -/
def registerAll (r : Registry) : List (List ResolvedType) → List String × Registry
  | [] => ([], r)
  | ms :: mss =>
    let rest := (r.register ms).2.registerAll mss
    ((r.register ms).1 :: rest.1, rest.2)

variable {r r' r'' : Registry} {ms : List ResolvedType} {mss : List (List ResolvedType)}

@[simp] theorem registerAll_nil (r : Registry) : r.registerAll [] = ([], r) := rfl

@[simp] theorem registerAll_cons (r : Registry) (ms : List ResolvedType)
    (mss : List (List ResolvedType)) :
    r.registerAll (ms :: mss) =
      ((r.register ms).1 :: ((r.register ms).2.registerAll mss).1,
        ((r.register ms).2.registerAll mss).2) := rfl

@[simp] theorem registerAll_length (r : Registry) (mss : List (List ResolvedType)) :
    (r.registerAll mss).1.length = mss.length := by
  induction mss generalizing r with
  | nil => rfl
  | cons ms mss ih => simp [ih]

theorem registerAll_append (r : Registry) (mss mss' : List (List ResolvedType)) :
    (r.registerAll (mss ++ mss')).2 = ((r.registerAll mss).2.registerAll mss').2 := by
  induction mss generalizing r with
  | nil => rfl
  | cons ms mss ih => simp [ih]

/-- `r'` is what registering some member lists in turn makes of `r`. -/
def Reaches (r r' : Registry) : Prop :=
  ∃ mss, (r.registerAll mss).2 = r'

theorem Reaches.refl (r : Registry) : r.Reaches r := ⟨[], rfl⟩

theorem Reaches.register (r : Registry) (ms : List ResolvedType) : r.Reaches (r.register ms).2 :=
  ⟨[ms], rfl⟩

theorem Reaches.trans : r.Reaches r' → r'.Reaches r'' → r.Reaches r''
  | ⟨mss, h⟩, ⟨mss', h'⟩ => ⟨mss ++ mss', by rw [registerAll_append, h, h']⟩

theorem reaches_registerAll (r : Registry) (mss : List (List ResolvedType)) :
    r.Reaches (r.registerAll mss).2 :=
  ⟨mss, rfl⟩

/-- A property that registration keeps holds of every registry reached. -/
theorem Reaches.preserves {P : Registry → Prop} (hstep : ∀ r ms, P r → P (r.register ms).2) :
    r.Reaches r' → P r → P r' := by
  rintro ⟨mss, rfl⟩ hr
  induction mss generalizing r with
  | nil => exact hr
  | cons ms mss ih => exact ih (hstep r ms hr)

/-! ## What one registration does -/

theorem register_reserved (r : Registry) (ms : List ResolvedType) :
    (r.register ms).2.reserved = r.reserved := by
  rcases register_found_or_appended r ms with ⟨-, h⟩ | ⟨-, -, -, h⟩ <;> rw [h]

theorem register_entries_grow (r : Registry) (ms : List ResolvedType) :
    r.entries <+: (r.register ms).2.entries := by
  rcases register_found_or_appended r ms with ⟨-, h⟩ | ⟨-, -, -, h⟩
  · rw [h]
  · rw [h]
    exact List.prefix_append _ _

/-- After registration the members' entry is there, under the name answered. -/
theorem mem_register (r : Registry) (ms : List ResolvedType) :
    ((r.register ms).1, compositeFields ms) ∈ (r.register ms).2.entries := by
  rcases register_found_or_appended r ms with ⟨hmem, h⟩ | ⟨-, -, -, h⟩ <;> rw [h]
  · exact hmem
  · exact List.mem_append_right _ (List.mem_singleton_self _)

theorem Reaches.reserved (h : r.Reaches r') : r'.reserved = r.reserved :=
  h.preserves (P := fun r' => r'.reserved = r.reserved)
    (fun r ms hr => (register_reserved r ms).trans hr) rfl

theorem Reaches.entries_grow (h : r.Reaches r') : r.entries <+: r'.entries :=
  h.preserves (P := fun r' => r.entries <+: r'.entries)
    (fun r ms hr => hr.trans (register_entries_grow r ms)) (List.prefix_refl _)

theorem Reaches.keys_nodup (h : r.Reaches r') (hk : r.entries.keys.Nodup) : r'.entries.keys.Nodup :=
  h.preserves (P := fun r => r.entries.keys.Nodup)
    (fun _ _ hk => (register_entries hk rfl).1) hk

/-! ## The representation invariant -/

/-- A registry as registration builds it: distinct unreserved synthetic names, each index at
least its position, and no two entries with the same fields. -/
structure Wf (r : Registry) : Prop where
  keys_nodup : r.entries.keys.Nodup
  not_reserved : ∀ n ∈ r.entries.keys, n ∉ r.reserved
  synthetic : ∀ i (h : i < r.entries.length), ∃ k, i ≤ k ∧ r.entries[i].1 = nameAt k
  composite : ∀ e ∈ r.entries, ∃ ms, e.2 = compositeFields ms
  fields_nodup : (r.entries.map Prod.snd).Nodup

/-- A registry with no entries yet, whatever it reserves. -/
theorem Wf.of_entries_nil (h : r.entries = []) : r.Wf where
  keys_nodup := by simp [h, OrderedMap.keys]
  not_reserved n hn := by simp [h, OrderedMap.keys] at hn
  synthetic i hi := by simp [h] at hi
  composite e he := by simp [h] at he
  fields_nodup := by simp [h]

/-- In a registry of that shape an entry is known by its name as well as by its fields. -/
theorem Wf.fields_eq_iff_name_eq (hr : r.Wf) {e e' : String × List Field} (he : e ∈ r.entries)
    (he' : e' ∈ r.entries) : e.2 = e'.2 ↔ e.1 = e'.1 := by
  constructor
  · intro h
    rw [List.inj_on_of_nodup_map hr.fields_nodup he he' h]
  · intro h
    rw [List.inj_on_of_nodup_map hr.keys_nodup he he' h]

/-- Registration keeps the shape: a new entry takes a free synthetic name from the registry's size
on, and fields that no entry had. -/
theorem Wf.register (hr : r.Wf) (ms : List ResolvedType) : (r.register ms).2.Wf := by
  rcases register_found_or_appended r ms with ⟨-, h⟩ | ⟨hnew, hfree, hindex, h⟩
  · rw [h]
    exact hr
  rw [h]
  generalize (r.register ms).1 = n at hfree hindex
  obtain ⟨k₀, hk₀, rfl⟩ := hindex
  rw [← Bool.not_eq_true, taken_iff, not_or] at hfree
  obtain ⟨hres, hkey⟩ := hfree
  have hkeys : OrderedMap.keys (r.entries ++ [(nameAt k₀, compositeFields ms)]) =
      r.entries.keys ++ [nameAt k₀] := by
    simp [OrderedMap.keys]
  constructor
  · rw [hkeys]
    exact hr.keys_nodup.append (List.nodup_singleton _) (List.disjoint_singleton.2 hkey)
  · intro n hn
    rw [hkeys, List.mem_append, List.mem_singleton] at hn
    rcases hn with hn | rfl
    · exact hr.not_reserved n hn
    · exact hres
  · intro i hi
    simp only [List.length_append, List.length_singleton] at hi
    by_cases hold : i < r.entries.length
    · rw [List.getElem_append_left hold]
      exact hr.synthetic i hold
    · have hlast : i = r.entries.length := by omega
      subst hlast
      exact ⟨k₀, hk₀, by simp⟩
  · intro e he
    rcases List.mem_append.1 he with he | he
    · exact hr.composite e he
    · rw [List.mem_singleton.1 he]
      exact ⟨ms, rfl⟩
  · rw [List.map_append]
    exact hr.fields_nodup.append (List.nodup_singleton _) (List.disjoint_singleton.2 hnew)

theorem Reaches.wf (h : r.Reaches r') (hr : r.Wf) : r'.Wf :=
  h.preserves (P := Wf) (fun _ ms hr => hr.register ms) hr

/-! ## What registration answers -/

/-- Registering `ms` answers the entry with the members' fields, found unchanged or appended with
every earlier entry kept. -/
def Registers (r : Registry) (ms : List ResolvedType) : Prop :=
  ((r.register ms).1, compositeFields ms) ∈ (r.register ms).2.entries ∧
    (∀ e ∈ (r.register ms).2.entries, e.2 = compositeFields ms ↔ e.1 = (r.register ms).1) ∧
    ((compositeFields ms ∈ r.entries.map Prod.snd ∧ (r.register ms).2 = r) ∨
      (compositeFields ms ∉ r.entries.map Prod.snd ∧
        (r.register ms).2 =
          { r with entries := r.entries ++ [((r.register ms).1, compositeFields ms)] }))

theorem Wf.registers (hr : r.Wf) (ms : List ResolvedType) : r.Registers ms := by
  have hmem := mem_register r ms
  refine ⟨hmem, fun e he => (hr.register ms).fields_eq_iff_name_eq he hmem, ?_⟩
  rcases register_found_or_appended r ms with ⟨hfound, h⟩ | ⟨hnew, -, -, h⟩
  · exact .inl ⟨List.mem_map_of_mem hfound, h⟩
  · exact .inr ⟨hnew, h⟩

/-- Every member list registered along the way has its entry, under the name it received, in the
registry at the end. -/
theorem mem_registerAll_entries :
    ∀ {r : Registry} {mss : List (List ResolvedType)} {i : Nat} {n : String}
      {ms : List ResolvedType}, (r.registerAll mss).1[i]? = some n → mss[i]? = some ms →
      (n, compositeFields ms) ∈ (r.registerAll mss).2.entries
  | _, [], _, _, _, _, hms => by simp at hms
  | r, ms' :: mss, 0, n, ms, hn, hms => by
    simp only [registerAll_cons, List.getElem?_cons_zero, Option.some.injEq] at hn hms
    subst hn hms
    exact ((reaches_registerAll _ mss).entries_grow).subset (mem_register r ms')
  | r, ms' :: mss, i + 1, n, ms, hn, hms => by
    simp only [registerAll_cons, List.getElem?_cons_succ] at hn hms ⊢
    exact mem_registerAll_entries hn hms

/-- In a registry of that shape, the names received along a sequence of registrations are equal
exactly when the member lists are. -/
theorem registerAll_names_eq_iff (hr : r.Wf) (mss : List (List ResolvedType)) (i j : Nat) :
    (r.registerAll mss).1[i]? = (r.registerAll mss).1[j]? ↔ mss[i]? = mss[j]? := by
  have hwf := (reaches_registerAll r mss).wf hr
  have hname : ∀ (k : Nat) ms, mss[k]? = some ms → ∃ n, (r.registerAll mss).1[k]? = some n := by
    intro k ms hk
    have hlt : k < (r.registerAll mss).1.length := by
      rw [registerAll_length]
      exact (List.getElem?_eq_some_iff.1 hk).1
    exact ⟨_, List.getElem?_eq_getElem hlt⟩
  have hnone : ∀ k : Nat, mss[k]? = none → (r.registerAll mss).1[k]? = none := by
    intro k hk
    rw [List.getElem?_eq_none_iff, registerAll_length]
    exact List.getElem?_eq_none_iff.1 hk
  cases hi : mss[i]? with
  | none =>
    cases hj : mss[j]? with
    | none => simp [hnone i hi, hnone j hj]
    | some msj =>
      obtain ⟨nj, hnj⟩ := hname j msj hj
      simp [hnone i hi, hnj]
  | some msi =>
    obtain ⟨ni, hni⟩ := hname i msi hi
    cases hj : mss[j]? with
    | none => simp [hni, hnone j hj]
    | some msj =>
      obtain ⟨nj, hnj⟩ := hname j msj hj
      have hmi := mem_registerAll_entries hni hi
      have hmj := mem_registerAll_entries hnj hj
      rw [hni, hnj, Option.some.injEq, Option.some.injEq, ← compositeFields_injective.eq_iff]
      exact (hwf.fields_eq_iff_name_eq hmi hmj).symm

end Registry

/-- Registration keeps the reserved identifiers and the shape `Registry.Wf`, and gives equal
member lists one name and different lists different names. -/
theorem registry_deduplicates (R : List String) (mss : List (List ResolvedType)) :
    let run := ({ reserved := R } : Registry).registerAll mss
    run.2.reserved = R ∧ run.2.Wf ∧ (∀ ms, run.2.Registers ms) ∧
      ∀ i j : Nat, run.1[i]? = run.1[j]? ↔ mss[i]? = mss[j]? := by
  intro run
  have hstart : ({ reserved := R } : Registry).Wf := Registry.Wf.of_entries_nil rfl
  have hwf : run.2.Wf := (Registry.reaches_registerAll _ mss).wf hstart
  exact ⟨(Registry.reaches_registerAll _ mss).reserved, hwf, hwf.registers,
    Registry.registerAll_names_eq_iff hstart mss⟩

/-- A reserved name is stepped over, and a repeated member list gets its first name back. -/
example : (({ reserved := ["ComplexType0"] } : Registry).registerAll
    [[.primitive .u8, .primitive .u16], [.primitive .u16, .primitive .u8],
      [.primitive .u8, .primitive .u16]]).1 = ["ComplexType1", "ComplexType2", "ComplexType1"] := by
  decide

end ContractAbi
