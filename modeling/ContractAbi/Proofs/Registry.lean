import Mathlib.Data.Finset.Card
import Mathlib.Order.Interval.Finset.Nat
import ContractAbi.Conversion.Resolution

/-!
# The composite registry

Composites are deduplicated by their member lists, and a new composite takes the first synthetic
name `ComplexType{i}` that no declared type and no earlier composite owns. This module shows that
the search always succeeds within its fuel: the names are pairwise distinct, so among the fuel
plus one names it tries, one is free. Registration therefore either hands back the entry whose
fields are the members', or appends a new entry under a fresh name.

Main statement: `register_found_or_appended`.
-/

namespace ContractAbi

/-! ## Structural equality is equality -/

namespace ResolvedType

mutual

theorem eq_of_beq : ∀ {a b : ResolvedType}, beq a b = true → a = b
  | .primitive p, b, h => by cases b <;> simp_all [beq]
  | .record n, b, h => by cases b <;> simp_all [beq]
  | .enum n, b, h => by cases b <;> simp_all [beq]
  | .list a, b, h => by
    cases b with
    | list b =>
      have hab : a = b := eq_of_beq (by simpa [beq] using h)
      rw [hab]
    | _ => simp [beq] at h
  | .variadic a, b, h => by
    cases b with
    | variadic b =>
      have hab : a = b := eq_of_beq (by simpa [beq] using h)
      rw [hab]
    | _ => simp [beq] at h
  | .multiVariadic n xs, b, h => by
    cases b with
    | multiVariadic m ys =>
      simp only [beq, Bool.and_eq_true, beq_iff_eq] at h
      rw [h.1, eq_of_beqList h.2]
    | _ => simp [beq] at h
  | .multi n xs, b, h => by
    cases b with
    | multi m ys =>
      simp only [beq, Bool.and_eq_true, beq_iff_eq] at h
      rw [h.1, eq_of_beqList h.2]
    | _ => simp [beq] at h
  | .tuple n xs, b, h => by
    cases b with
    | tuple m ys =>
      simp only [beq, Bool.and_eq_true, beq_iff_eq] at h
      rw [h.1, eq_of_beqList h.2]
    | _ => simp [beq] at h

theorem eq_of_beqList : ∀ {xs ys : List ResolvedType}, beqList xs ys = true → xs = ys
  | [], [], _ => rfl
  | x :: xs, y :: ys, h => by
    simp only [beqList, Bool.and_eq_true] at h
    rw [eq_of_beq h.1, eq_of_beqList h.2]
  | [], _ :: _, h => by simp [beqList] at h
  | _ :: _, [], h => by simp [beqList] at h

end

mutual

theorem beq_self : ∀ a : ResolvedType, beq a a = true
  | .primitive p => by simp [beq]
  | .record n => by simp [beq]
  | .enum n => by simp [beq]
  | .list a => by simp [beq, beq_self a]
  | .variadic a => by simp [beq, beq_self a]
  | .multiVariadic n xs => by simp [beq, beqList_self xs]
  | .multi n xs => by simp [beq, beqList_self xs]
  | .tuple n xs => by simp [beq, beqList_self xs]

theorem beqList_self : ∀ xs : List ResolvedType, beqList xs xs = true
  | [] => rfl
  | x :: xs => by simp [beqList, beq_self x, beqList_self xs]

end

instance : LawfulBEq ResolvedType where
  eq_of_beq := eq_of_beq
  rfl := beq_self _

end ResolvedType

instance : LawfulBEq Field where
  eq_of_beq {a b} h := by
    obtain ⟨n, t⟩ := a
    obtain ⟨m, u⟩ := b
    change (n == m && t == u) = true at h
    simp only [Bool.and_eq_true, beq_iff_eq] at h
    rw [h.1, h.2]
  rfl {a} := by
    change (a.name == a.name && a.type == a.type) = true
    simp

/-! ## Lookups in an ordered map -/

namespace OrderedMap

variable {α : Type} {m : OrderedMap α} {k k' : String} {v : α}

theorem contains_iff : m.contains k = true ↔ k ∈ m.keys := by
  simp [contains, keys]

theorem get?_eq_some_of_mem (hk : m.keys.Nodup) (h : (k, v) ∈ m) : m.get? k = some v := by
  induction m with
  | nil => cases h
  | cons p m ih =>
    simp only [keys, List.map_cons, List.nodup_cons] at hk
    rcases List.mem_cons.1 h with rfl | h
    · simp [get?]
    · have hne : p.1 ≠ k := fun he => hk.1 (he ▸ List.mem_map_of_mem (f := (·.1)) h)
      simpa [get?, hne] using ih hk.2 h

theorem exists_get?_of_contains (h : m.contains k = true) : ∃ v, m.get? k = some v := by
  have hs : (m.find? (·.1 == k)).isSome := List.find?_isSome.2 (List.any_eq_true.1 h)
  obtain ⟨p, hp⟩ := Option.isSome_iff_exists.1 hs
  exact ⟨p.2, by simp [get?, hp]⟩

theorem contains_eq_false_of_get? (h : m.get? k = none) : m.contains k = false := by
  cases hc : m.contains k with
  | false => rfl
  | true =>
    obtain ⟨v, hv⟩ := exists_get?_of_contains hc
    rw [h] at hv
    cases hv

theorem mem_of_get? (h : m.get? k = some v) : (k, v) ∈ m := by
  simp only [get?, Option.map_eq_some_iff] at h
  obtain ⟨p, hp, rfl⟩ := h
  have hk := List.find?_some hp
  simp only [beq_iff_eq] at hk
  exact hk ▸ List.mem_of_find?_eq_some hp

@[simp] theorem keys_append (m' : OrderedMap α) : (m ++ m').keys = m.keys ++ m'.keys := by
  simp [keys]

theorem insert_of_not_contains (h : m.contains k = false) : m.insert k v = m ++ [(k, v)] := by
  simp [insert, h]

end OrderedMap

/-! ## Synthetic names are fresh -/

/-- A fixed prefix followed by a number's decimal digits names the number: synthetic names
(`ComplexType0`, `var1`, …) never collide. -/
theorem append_toString_injective (pre : String) : Function.Injective fun i : Nat => pre ++ toString i := by
  intro i j h
  have hdigits : Nat.toDigits 10 i = Nat.toDigits 10 j := by
    have hl := congrArg String.toList h
    simp only [String.toList_append] at hl
    simpa [Nat.toString_eq_ofList_toDigits] using List.append_cancel_left hl
  calc i = Nat.ofDigitChars 10 (Nat.toDigits 10 i) 0 := Nat.ofDigitChars_ten_toDigits.symm
    _ = Nat.ofDigitChars 10 (Nat.toDigits 10 j) 0 := by rw [hdigits]
    _ = j := Nat.ofDigitChars_ten_toDigits

namespace Registry

theorem nameAt_injective : Function.Injective nameAt :=
  append_toString_injective "ComplexType"

theorem taken_iff (r : Registry) (n : String) :
    r.taken n = true ↔ n ∈ r.reserved ∨ n ∈ r.entries.keys := by
  simp [taken, OrderedMap.contains_iff]

/-- Among the names from index `i` on, one in every `k + 1` consecutive ones is free when at most
`k` names are taken. -/
theorem exists_free (r : Registry) (i : Nat) :
    ∃ j, i ≤ j ∧ j ≤ i + (r.reserved.length + r.entries.length) ∧ r.taken (nameAt j) = false := by
  by_contra hall
  simp only [not_exists, not_and, Bool.not_eq_false] at hall
  let owned := (r.reserved ++ r.entries.keys).toFinset
  have hmaps : Set.MapsTo nameAt (Finset.Icc i (i + (r.reserved.length + r.entries.length)))
      owned := by
    intro j hj
    have hj' := Finset.mem_Icc.1 hj
    have ht := (taken_iff r _).1 (hall j hj'.1 hj'.2)
    simpa [owned, List.mem_append] using ht
  have hcard := Finset.card_le_card_of_injOn nameAt hmaps nameAt_injective.injOn
  have howned : owned.card ≤ r.reserved.length + r.entries.length :=
    calc owned.card ≤ (r.reserved ++ r.entries.keys).length := List.toFinset_card_le _
      _ = r.reserved.length + r.entries.length := by simp [OrderedMap.keys]
  simp only [Nat.card_Icc] at hcard
  omega

/-- The search stops at a free name as long as one lies within its fuel. -/
theorem freeFrom_free (r : Registry) :
    ∀ (fuel i : Nat), (∃ j, i ≤ j ∧ j ≤ i + fuel ∧ r.taken (nameAt j) = false) →
      r.taken (r.freeFrom fuel i) = false
  | 0, i, ⟨j, hij, hji, hj⟩ => by
    have hji' : j = i := by omega
    subst hji'
    exact hj
  | fuel + 1, i, ⟨j, hij, hji, hj⟩ => by
    unfold freeFrom
    split
    · rename_i ht
      apply freeFrom_free r fuel (i + 1)
      have hne : j ≠ i := by
        rintro rfl
        rw [ht] at hj
        cases hj
      exact ⟨j, by omega, by omega, hj⟩
    · rename_i ht
      simpa using ht

theorem register_name_free (r : Registry) :
    r.taken (r.freeFrom (r.reserved.length + r.entries.length) r.entries.length) = false :=
  freeFrom_free r _ _ (exists_free r _)

/-- The search only moves forward: the name it settles on has an index at least its start. -/
theorem freeFrom_index (r : Registry) :
    ∀ (fuel i : Nat), ∃ k, i ≤ k ∧ r.freeFrom fuel i = nameAt k
  | 0, i => ⟨i, Nat.le_refl i, rfl⟩
  | fuel + 1, i => by
    unfold freeFrom
    split
    · obtain ⟨k, hk, h⟩ := freeFrom_index r fuel (i + 1)
      exact ⟨k, by omega, h⟩
    · exact ⟨i, Nat.le_refl i, rfl⟩

/-- Registration finds an entry with the members' fields and changes nothing, or appends one
under a free synthetic name. -/
theorem register_found_or_appended (r : Registry) (ms : List ResolvedType) :
    (((r.register ms).1, compositeFields ms) ∈ r.entries ∧ (r.register ms).2 = r) ∨
      (compositeFields ms ∉ r.entries.map Prod.snd ∧ r.taken (r.register ms).1 = false ∧
        (∃ k, r.entries.length ≤ k ∧ (r.register ms).1 = nameAt k) ∧
        (r.register ms).2 = { r with entries := r.entries ++ [((r.register ms).1, compositeFields ms)] }) := by
  cases hfind : r.entries.find? (fun e => e.2 == compositeFields ms) with
  | some e =>
    obtain ⟨n, fs⟩ := e
    have hmem := List.mem_of_find?_eq_some hfind
    have hfs : fs = compositeFields ms := by simpa using List.find?_some hfind
    left
    simp only [register, hfind]
    exact ⟨hfs ▸ hmem, trivial⟩
  | none =>
    have hnew : compositeFields ms ∉ r.entries.map Prod.snd := by
      simp only [List.find?_eq_none, beq_iff_eq] at hfind
      simpa using fun n hn => hfind (n, compositeFields ms) hn rfl
    right
    simp only [register, hfind]
    exact ⟨hnew, register_name_free r, freeFrom_index r _ _, trivial⟩

/-- Registration hands back an entry whose fields are the members', or appends a new entry under a
name no declared type and no composite owns. -/
theorem register_cases (r : Registry) (ms : List ResolvedType) :
    (((r.register ms).1, compositeFields ms) ∈ r.entries ∧ (r.register ms).2 = r) ∨
      (r.taken (r.register ms).1 = false ∧
        (r.register ms).2 = { r with entries := r.entries ++ [((r.register ms).1, compositeFields ms)] }) := by
  rcases register_found_or_appended r ms with hfound | ⟨-, hfree, -, happ⟩
  · exact .inl hfound
  · exact .inr ⟨hfree, happ⟩

/-- What registration does to the entries: the members' entry is there afterwards, nothing else
is added, and names stay unique. -/
theorem register_entries {r r' : Registry} {ms : List ResolvedType} {n : String}
    (hk : r.entries.keys.Nodup) (h : r.register ms = (n, r')) :
    r'.entries.keys.Nodup ∧
      ∀ e, e ∈ r'.entries ↔ e ∈ r.entries ∨ e = (n, compositeFields ms) := by
  rcases register_cases r ms with ⟨hmem, hr⟩ | ⟨hfree, hr⟩
  · simp only [h] at hmem hr
    subst hr
    refine ⟨hk, fun e => ⟨.inl, ?_⟩⟩
    rintro (he | rfl)
    · exact he
    · exact hmem
  · simp only [h] at hfree hr
    have hn : n ∉ r.entries.keys := fun hn => by
      rw [← Bool.not_eq_true, taken_iff] at hfree
      exact hfree (.inr hn)
    subst hr
    refine ⟨?_, fun e => by simp⟩
    simpa [OrderedMap.keys] using hk.append (List.nodup_singleton n) (List.disjoint_singleton.2 hn)

end Registry

end ContractAbi
