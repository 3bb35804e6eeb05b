import ContractAbi.Wire.Slots

/-!
# The slot strategies against their list definitions

What each way of reading the returned slots computes, stated over the slot list alone. A scalar
reads slot `i`, or reports slot `i` missing; a self-terminating list reads slot `i`, or is empty;
each-slot keeps, in order, the values of the slots from `start` on that decode; groups cut the
slots from `start` on into strides of `width` (`strides`: the `k`-th is slots `start + k·width` up
to `start + (k+1)·width`, and a short tail is no stride) and keep the values of those that
decode; a single group reads the slots `start` up to `start + width`, or reports the first of them
that is missing. The three repeating strategies answer a list, so they never fail.

Main statement: `strategies_match_reference`.
-/

namespace ContractAbi.Wire

variable {α β : Type}

/-! ## Strides -/

/-- The `k`-th stride of `width` items after `start`. -/
def stride (s : List α) (start width k : Nat) : List α :=
  (s.drop (start + k * width)).take width

/-- The complete strides of `width` items from `start` on, in order; none of width zero. -/
def strides (s : List α) (start width : Nat) : List (List α) :=
  if width = 0 then [] else (List.range ((s.length - start) / width)).map (stride s start width)

/-- Every stride listed is complete. -/
theorem length_stride {s : List α} {start width k : Nat} (hk : k < (s.length - start) / width) :
    (stride s start width k).length = width := by
  have hw : 0 < width := by
    apply Nat.pos_of_ne_zero
    rintro rfl
    simp at hk
  have hend : (k + 1) * width ≤ s.length - start := (Nat.le_div_iff_mul_le hw).1 hk
  have hmul : (k + 1) * width = k * width + width := Nat.succ_mul k width
  simp only [stride, List.length_take, List.length_drop]
  omega

theorem strides_drop (s : List α) (start width : Nat) :
    strides (s.drop start) 0 width = strides s start width := by
  have hstride : stride (s.drop start) 0 width = stride s start width := by
    funext k
    simp only [stride, List.drop_drop, Nat.zero_add]
  simp only [strides, List.length_drop, Nat.sub_zero, hstride]

/-- Cutting complete groups from the front lists the strides from the front. -/
theorem Slots.completeGroups_eq_strides {width : Nat} (hw : 0 < width) (xs : List α) :
    Slots.completeGroups width xs = strides xs 0 width := by
  have hne : width ≠ 0 := Nat.pos_iff_ne_zero.1 hw
  fun_induction Slots.completeGroups width xs with
  | case1 xs h ih =>
    rw [ih, strides, strides, if_neg hne, if_neg hne, List.length_drop, Nat.sub_zero,
      Nat.sub_zero, Nat.div_eq_sub_div hw h.2, List.range_succ_eq_map, List.map_cons,
      List.map_map]
    have hnext : stride xs 0 width ∘ Nat.succ = stride (xs.drop width) 0 width := by
      funext k
      have hmul : (k + 1) * width = width + k * width := by
        rw [Nat.succ_mul, Nat.add_comm]
      simp only [Function.comp, stride, Nat.zero_add, List.drop_drop, hmul]
    rw [hnext]
    simp [stride]
  | case2 xs h =>
    have hshort : xs.length < width := by omega
    simp [strides, hne, Nat.div_eq_of_lt hshort]

example : strides [1, 2, 3, 4, 5] 0 2 = [[1, 2], [3, 4]] := by decide

/-! ## The strategies -/

namespace Slots

variable (d : Slots)

theorem scalar_eq (i : Nat) (decode : List UInt8 → Except WireError α) :
    d.scalar i decode =
      if h : i < d.slots.length then (decode d.slots[i]).mapError (.invalidResponse d.endpoint i)
      else .error (.invalidResponse d.endpoint i (.missingSlot i d.slots.length)) := by
  by_cases h : i < d.slots.length
  · simp only [scalar, get, List.getElem?_eq_getElem h, dif_pos h]
    rfl
  · have hnone : d.slots[i]? = none := List.getElem?_eq_none_iff.2 (Nat.le_of_not_lt h)
    simp only [scalar, get, hnone, dif_neg h]
    rfl

theorem selfTerminatingAt_eq (i : Nat) (record : Reader α) :
    d.selfTerminatingAt i record =
      if h : i < d.slots.length then selfTerminating record d.slots[i] else [] := by
  by_cases h : i < d.slots.length
  · simp only [selfTerminatingAt, List.getElem?_eq_getElem h, dif_pos h]
  · have hnone : d.slots[i]? = none := List.getElem?_eq_none_iff.2 (Nat.le_of_not_lt h)
    simp only [selfTerminatingAt, hnone, dif_neg h]

theorem eachSlot_eq (start : Nat) (decode : List UInt8 → Except WireError α) :
    d.eachSlot start decode = ((d.slots.drop start).map decode).filterMap Except.toOption := by
  rw [List.filterMap_map]
  rfl

theorem groups_eq (start width : Nat) (decode : List (List UInt8) → Except WireError α) :
    d.groups start width decode =
      ((strides d.slots start width).map decode).filterMap Except.toOption := by
  rw [List.filterMap_map]
  by_cases hw : width = 0
  · subst hw
    have hnone : completeGroups 0 (d.slots.drop start) = [] := by
      rw [completeGroups]
      simp
    simp [groups, hnone, strides]
  · rw [groups, completeGroups_eq_strides (Nat.pos_of_ne_zero hw), strides_drop]
    rfl

theorem group_eq (start width : Nat) (decode : List (List UInt8) → Except WireError α) :
    d.group start width decode =
      if start + width ≤ d.slots.length then
        (decode ((d.slots.drop start).take width)).mapError (.invalidResponse d.endpoint start)
      else
        .error (.invalidResponse d.endpoint (max d.slots.length start)
          (.missingSlot (max d.slots.length start) d.slots.length)) := by
  by_cases h : start + width ≤ d.slots.length
  · rw [group, if_neg (Nat.not_lt.2 h), if_pos h]
  · rw [group, if_pos (Nat.lt_of_not_le h), if_neg h]

/-- A group of slots with too few slots is reported at its first missing slot: the slots of the
group before it are all there and it is not. -/
theorem group_reports_first_missing {start width : Nat}
    {decode : List (List UInt8) → Except WireError α} (hw : 0 < width)
    (h : d.slots.length < start + width) :
    ∃ j, d.group start width decode =
        .error (.invalidResponse d.endpoint j (.missingSlot j d.slots.length)) ∧
      start ≤ j ∧ j < start + width ∧ d.slots[j]? = none ∧
      ∀ i, start ≤ i → i < j → i < d.slots.length := by
  refine ⟨max d.slots.length start, ?_, Nat.le_max_right _ _, ?_, ?_, ?_⟩
  · rw [group_eq, if_neg (Nat.not_le.2 h)]
  · omega
  · exact List.getElem?_eq_none_iff.2 (Nat.le_max_left _ _)
  · intro i _ hi
    omega

end Slots

/-- Each way of reading slots is its list definition: abort, stop, skip or drop an incomplete
stride, as its strategy says. -/
theorem strategies_match_reference (d : Slots) :
    (∀ {α : Type} (i : Nat) (decode : List UInt8 → Except WireError α),
      d.scalar i decode =
        if h : i < d.slots.length then (decode d.slots[i]).mapError (.invalidResponse d.endpoint i)
        else .error (.invalidResponse d.endpoint i (.missingSlot i d.slots.length))) ∧
    (∀ {α : Type} (i : Nat) (record : Reader α),
      d.selfTerminatingAt i record =
        if h : i < d.slots.length then selfTerminating record d.slots[i] else []) ∧
    (∀ {α : Type} (start : Nat) (decode : List UInt8 → Except WireError α),
      d.eachSlot start decode = ((d.slots.drop start).map decode).filterMap Except.toOption) ∧
    (∀ {α : Type} (start width : Nat) (decode : List (List UInt8) → Except WireError α),
      d.groups start width decode =
        ((strides d.slots start width).map decode).filterMap Except.toOption) ∧
    (∀ {α : Type} (start width : Nat) (decode : List (List UInt8) → Except WireError α),
      d.group start width decode =
        if start + width ≤ d.slots.length then
          (decode ((d.slots.drop start).take width)).mapError (.invalidResponse d.endpoint start)
        else
          .error (.invalidResponse d.endpoint (max d.slots.length start)
            (.missingSlot (max d.slots.length start) d.slots.length))) :=
  ⟨d.scalar_eq, d.selfTerminatingAt_eq, d.eachSlot_eq, d.groups_eq, d.group_eq⟩

end ContractAbi.Wire
