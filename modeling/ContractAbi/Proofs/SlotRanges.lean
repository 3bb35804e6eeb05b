import ContractAbi.Proofs.Decoding

/-!
# Outputs read disjoint slot ranges

A plan gives every output a range of slots: a fixed strategy reads its span from its first slot,
a repeating one every slot from its first slot on. Planning hands the ranges out left to right,
so no two outputs share a slot, and reading an output looks at its own range only: two slot
arrays that agree on it give the same value, or fail at the same slot for the same reason.

Two things lie outside the ranges. A missing slot is reported with the number of slots the array
has. A group of no member reads no slot, but still fails when the array ends before its first
slot. Decoding the outputs of a call first checks that every named type they mention is
declared; once that holds, it answers one value per output, in order, or the failure of the
first output that fails.

Main statement: `planned_outputs_read_own_slots`.
-/

namespace ContractAbi

/-! ## Traversals in the exception monad -/

section Traversals

variable {ε α β : Type} {f : α → Except ε β}

/-- A traversal answers exactly when every element does, one answer per element. -/
theorem mapM_eq_ok_iff :
    ∀ {xs : List α} {ys : List β}, xs.mapM f = .ok ys ↔ List.Forall₂ (fun x y => f x = .ok y) xs ys
  | [], ys => by
    cases ys <;> simp [List.mapM_nil, pure, Except.pure]
  | x :: xs, ys => by
    rw [List.mapM_cons, List.forall₂_cons_left_iff]
    cases hx : f x with
    | error e => simp [bind, Except.bind]
    | ok y =>
      cases hxs : xs.mapM f with
      | error e =>
        have hno : ¬ ∃ ys', List.Forall₂ (fun x y => f x = .ok y) xs ys' := by
          rintro ⟨ys', hys'⟩
          rw [← mapM_eq_ok_iff, hxs] at hys'
          cases hys'
        simp only [bind, Except.bind, Except.ok.injEq, reduceCtorEq, false_iff]
        rintro ⟨y', ys', -, hys', -⟩
        exact hno ⟨ys', hys'⟩
      | ok ys' =>
        have hrest := mapM_eq_ok_iff.1 hxs
        simp only [bind, Except.bind, pure, Except.pure, Except.ok.injEq]
        constructor
        · rintro rfl
          exact ⟨y, ys', rfl, hrest, rfl⟩
        · rintro ⟨y', ys'', hy', hys'', rfl⟩
          cases hy'
          rw [← mapM_eq_ok_iff, hxs] at hys''
          cases hys''
          rfl

/-- A traversal fails exactly with the failure of the first element that fails. -/
theorem mapM_eq_error_iff {e : ε} :
    ∀ {xs : List α}, xs.mapM f = .error e ↔
      ∃ pre x post, xs = pre ++ x :: post ∧ (∀ y ∈ pre, ∃ v, f y = .ok v) ∧ f x = .error e
  | [] => by simp [List.mapM_nil, pure, Except.pure]
  | x :: xs => by
    rw [List.mapM_cons]
    cases hx : f x with
    | error e' =>
      simp only [bind, Except.bind, Except.error.injEq]
      constructor
      · rintro rfl
        exact ⟨[], x, xs, rfl, by simp, hx⟩
      · rintro ⟨pre, z, post, hsplit, hpre, hz⟩
        cases pre with
        | nil =>
          cases hsplit
          rw [hx] at hz
          cases hz
          rfl
        | cons w pre =>
          cases hsplit
          obtain ⟨v, hv⟩ := hpre x List.mem_cons_self
          rw [hx] at hv
          cases hv
    | ok y =>
      cases hxs : xs.mapM f with
      | ok ys =>
        simp only [bind, Except.bind, pure, Except.pure, reduceCtorEq, false_iff]
        rintro ⟨pre, z, post, hsplit, hpre, hz⟩
        cases pre with
        | nil =>
          cases hsplit
          rw [hx] at hz
          cases hz
        | cons w pre =>
          simp only [List.cons_append, List.cons.injEq] at hsplit
          obtain ⟨rfl, rfl⟩ := hsplit
          have hfail : (pre ++ z :: post).mapM f = .error e := mapM_eq_error_iff.2
            ⟨pre, z, post, rfl, fun v hv => hpre v (List.mem_cons_of_mem _ hv), hz⟩
          rw [hxs] at hfail
          cases hfail
      | error e' =>
        simp only [bind, Except.bind, Except.error.injEq]
        constructor
        · rintro rfl
          obtain ⟨pre, z, post, hsplit, hpre, hz⟩ := mapM_eq_error_iff.1 hxs
          refine ⟨x :: pre, z, post, by simp [hsplit], ?_, hz⟩
          intro w hw
          rcases List.mem_cons.1 hw with rfl | hw
          · exact ⟨y, hx⟩
          · exact hpre w hw
        · rintro ⟨pre, z, post, hsplit, hpre, hz⟩
          cases pre with
          | nil =>
            cases hsplit
            rw [hx] at hz
            cases hz
          | cons w pre =>
            simp only [List.cons_append, List.cons.injEq] at hsplit
            obtain ⟨rfl, rfl⟩ := hsplit
            have hfail : (pre ++ z :: post).mapM f = .error e := mapM_eq_error_iff.2
              ⟨pre, z, post, rfl, fun v hv => hpre v (List.mem_cons_of_mem _ hv), hz⟩
            rw [hxs] at hfail
            cases hfail
            rfl

end Traversals

/-! ## The slots of a plan -/

namespace OutputPlan

/-- Slot `i` lies in the range an output reads: from its first slot on, as far as its strategy's
span reaches, or to the end for a repeating strategy. -/
def reads (p : OutputPlan) (i : Nat) : Bool :=
  p.firstSlot ≤ i && p.strategy.slotSpan?.all (i < p.firstSlot + ·)

/-- Two plans read no slot in common. -/
def Apart (p q : OutputPlan) : Prop :=
  ∀ i, ¬ (p.reads i = true ∧ q.reads i = true)

theorem reads_of_span {s : DecodeStrategy} {k span i : Nat} (h : s.slotSpan? = some span) :
    (⟨s, k⟩ : OutputPlan).reads i = true ↔ k ≤ i ∧ i < k + span := by
  simp [reads, h]

theorem reads_of_repeating {s : DecodeStrategy} {k i : Nat} (h : s.slotSpan? = none) :
    (⟨s, k⟩ : OutputPlan).reads i = true ↔ k ≤ i := by
  simp [reads, h]

theorem firstSlot_le_of_reads {p : OutputPlan} {i : Nat} (h : p.reads i = true) :
    p.firstSlot ≤ i := by
  simp only [reads, Bool.and_eq_true, decide_eq_true_eq] at h
  exact h.1

end OutputPlan

/-! ## Planning hands out ranges left to right -/

section Planning

variable {cursor : Nat} {ty : ResolvedType} {tys : List ResolvedType} {plans : List OutputPlan}

/-- What planning does with the first output: a fixed span is taken and the rest planned after
it, or a repeating output takes the rest of the slots and must be the last. -/
theorem planFrom_cons_ok (h : planFrom cursor (ty :: tys) = .ok plans) :
    ∃ s, DecodeStrategy.select ty = .ok s ∧
      ((∃ span ps, s.slotSpan? = some span ∧ planFrom (cursor + span) tys = .ok ps ∧
          plans = ⟨s, cursor⟩ :: ps) ∨
        (s.slotSpan? = none ∧ tys = [] ∧ plans = [⟨s, cursor⟩])) := by
  unfold planFrom at h
  obtain ⟨s, hs, h⟩ := bind_eq_ok h
  refine ⟨s, hs, ?_⟩
  split at h
  · rename_i span hspan
    obtain ⟨ps, hps, h⟩ := bind_eq_ok h
    cases h
    exact .inl ⟨span, ps, hspan, hps, rfl⟩
  · rename_i hspan
    split at h
    · cases h
      exact .inr ⟨hspan, rfl, rfl⟩
    · cases h

theorem planFrom_length :
    ∀ {cursor : Nat} {tys : List ResolvedType} {plans : List OutputPlan},
      planFrom cursor tys = .ok plans → plans.length = tys.length
  | _, [], _, h => by cases h; rfl
  | _, _ :: _, _, h => by
    obtain ⟨s, -, ⟨span, ps, -, hps, rfl⟩ | ⟨-, rfl, rfl⟩⟩ := planFrom_cons_ok h
    · simp [planFrom_length hps]
    · rfl

/-- Every plan starts at or after the slot planning started from. -/
theorem planFrom_firstSlot :
    ∀ {cursor : Nat} {tys : List ResolvedType} {plans : List OutputPlan},
      planFrom cursor tys = .ok plans → ∀ p ∈ plans, cursor ≤ p.firstSlot
  | _, [], _, h, p, hp => by
    cases h
    cases hp
  | cursor, _ :: _, _, h, p, hp => by
    obtain ⟨s, -, ⟨span, ps, -, hps, rfl⟩ | ⟨-, rfl, rfl⟩⟩ := planFrom_cons_ok h
    · rcases List.mem_cons.1 hp with rfl | hp
      · exact Nat.le_refl _
      · have := planFrom_firstSlot hps p hp
        omega
    · rw [List.mem_singleton.1 hp]

/-- No two planned outputs read a slot in common. -/
theorem planFrom_apart :
    ∀ {cursor : Nat} {tys : List ResolvedType} {plans : List OutputPlan},
      planFrom cursor tys = .ok plans → plans.Pairwise OutputPlan.Apart
  | _, [], _, h => by
    cases h
    exact List.Pairwise.nil
  | cursor, _ :: _, _, h => by
    obtain ⟨s, -, ⟨span, ps, hspan, hps, rfl⟩ | ⟨-, rfl, rfl⟩⟩ := planFrom_cons_ok h
    · refine List.Pairwise.cons (fun q hq i ⟨hi, hqi⟩ => ?_) (planFrom_apart hps)
      have hhead := ((OutputPlan.reads_of_span hspan).1 hi).2
      have hq := planFrom_firstSlot hps q hq
      have := OutputPlan.firstSlot_le_of_reads hqi
      omega
    · exact List.pairwise_singleton _ _

end Planning

/-! ## Reading an output looks at its own slots -/

namespace Wire

/-- A wire failure with the slot count of a missing-slot failure set aside. -/
def WireError.withoutAvailable : WireError → WireError
  | .missingSlot i _ => .missingSlot i 0
  | w => w

/-- A call failure with the slot count of a missing-slot failure set aside. -/
def CallError.withoutAvailable : CallError → CallError
  | .invalidResponse e i w => .invalidResponse e i w.withoutAvailable
  | c => c

/-- An output failure with the slot count of a missing-slot failure set aside. -/
def OutputError.withoutAvailable : OutputError → OutputError
  | .call c => .call c.withoutAvailable
  | err => err

theorem mapError_call {α : Type} (x : Except CallError α) :
    (x.mapError OutputError.call).mapError OutputError.withoutAvailable =
      (x.mapError CallError.withoutAvailable).mapError OutputError.call := by
  cases x <;> rfl

section Frame

variable {α : Type} {e : String} {s s' : List (List UInt8)}

/-- Arrays that agree from slot `k` on have the same slots from `k` on. -/
theorem drop_eq_of_agree {k : Nat} (h : ∀ i, k ≤ i → s[i]? = s'[i]?) : s.drop k = s'.drop k := by
  apply List.ext_getElem?
  intro n
  rw [List.getElem?_drop, List.getElem?_drop]
  exact h _ (Nat.le_add_right k n)

theorem Slots.scalar_frame {k : Nat} (h : s[k]? = s'[k]?) (decode : List UInt8 → Except WireError α) :
    (Slots.scalar ⟨e, s⟩ k decode).mapError CallError.withoutAvailable =
      (Slots.scalar ⟨e, s'⟩ k decode).mapError CallError.withoutAvailable := by
  simp only [Slots.scalar, Slots.get, h]
  cases s'[k]? <;> rfl

theorem Slots.selfTerminatingAt_frame {k : Nat} (h : s[k]? = s'[k]?) (record : Reader α) :
    Slots.selfTerminatingAt ⟨e, s⟩ k record = Slots.selfTerminatingAt ⟨e, s'⟩ k record := by
  simp only [Slots.selfTerminatingAt, h]

/-- Where two arrays agree on `[start, start + width)` and the second ends inside it, the first
ends no later. -/
theorem max_length_le {start width : Nat} (hw : 0 < width)
    (h : ∀ i, start ≤ i → i < start + width → s[i]? = s'[i]?) (hs' : s'.length < start + width) : max s.length start ≤ max s'.length start := by
  have hnone' : s'[max s'.length start]? = none := List.getElem?_eq_none_iff.2 (Nat.le_max_left _ _)
  have hnone : s[max s'.length start]? = none := by
    rw [h _ (Nat.le_max_right _ _) (by omega)]
    exact hnone'
  have := List.getElem?_eq_none_iff.1 hnone
  omega

theorem Slots.group_frame {start width : Nat} (hw : 0 < width)
    (h : ∀ i, start ≤ i → i < start + width → s[i]? = s'[i]?)
    (decode : List (List UInt8) → Except WireError α) :
    (Slots.group ⟨e, s⟩ start width decode).mapError CallError.withoutAvailable =
      (Slots.group ⟨e, s'⟩ start width decode).mapError CallError.withoutAvailable := by
  have hlast := h (start + width - 1) (by omega) (by omega)
  have hshort : s.length < start + width ↔ s'.length < start + width := by
    have key : s.length ≤ start + width - 1 ↔ s'.length ≤ start + width - 1 := by
      rw [← List.getElem?_eq_none_iff, ← List.getElem?_eq_none_iff, hlast]
    constructor
    · intro hlt
      have := key.1 (by omega)
      omega
    · intro hlt
      have := key.2 (by omega)
      omega
  have hgroup : (s.drop start).take width = (s'.drop start).take width := by
    apply List.ext_getElem?
    intro n
    simp only [List.getElem?_take, List.getElem?_drop]
    split
    · exact h _ (Nat.le_add_right _ _) (by omega)
    · rfl
  simp only [Slots.group]
  by_cases hs : s.length < start + width
  · have hs' := hshort.1 hs
    have hmax := Nat.le_antisymm (max_length_le hw h hs')
      (max_length_le hw (fun i h₁ h₂ => (h i h₁ h₂).symm) hs)
    simp only [hs, hs', if_true, hmax]
    rfl
  · have hs' : ¬ s'.length < start + width := fun h' => hs (hshort.2 h')
    simp only [hs, hs', if_false, hgroup]

/-- An output read by its plan depends on the slots of its range only, apart from the slot count
a missing slot reports; a group of no member is left out. -/
theorem decodeOutput_frame {c : Catalog} {ty : ResolvedType} {p : OutputPlan}
    (hp : p.strategy ≠ .group 0) (h : ∀ i, p.reads i = true → s[i]? = s'[i]?) :
    (decodeOutput c ⟨e, s⟩ ty p).mapError OutputError.withoutAvailable =
      (decodeOutput c ⟨e, s'⟩ ty p).mapError OutputError.withoutAvailable := by
  obtain ⟨st, k⟩ := p
  have hone (hs : st.slotSpan? = some 1) : s[k]? = s'[k]? :=
    h k ((OutputPlan.reads_of_span hs).2 ⟨Nat.le_refl k, by omega⟩)
  have hrest (hs : st.slotSpan? = none) : s.drop k = s'.drop k :=
    drop_eq_of_agree fun i hi => h i ((OutputPlan.reads_of_repeating hs).2 hi)
  cases st with
  | scalar =>
    simp only [decodeOutput, mapError_call, Slots.scalar_frame (hone rfl)]
  | selfTerminating =>
    cases ty <;> simp only [decodeOutput, Slots.selfTerminatingAt_frame (hone rfl)]
  | eachSlot =>
    cases ty <;> simp only [decodeOutput, Slots.eachSlot, hrest rfl]
  | groups w =>
    cases ty <;> simp only [decodeOutput, Slots.groups, hrest rfl]
  | group w =>
    have hw : 0 < w := Nat.pos_of_ne_zero fun hw => hp (by rw [hw])
    have hrange : ∀ i, k ≤ i → i < k + w → s[i]? = s'[i]? := fun i h₁ h₂ =>
      h i ((OutputPlan.reads_of_span (rfl : (DecodeStrategy.group w).slotSpan? = some w)).2 ⟨h₁, h₂⟩)
    cases ty <;> simp only [decodeOutput, mapError_call, Slots.group_frame hw hrange]

end Frame

/-! ## Decoding every output of a call -/

section Outputs

variable {c : Catalog} {e : String} {outputs : List ResolvedType} {slots : List (List UInt8)}

/-- A named type the outputs mention but the catalog lacks fails the call before any slot is
read. -/
theorem decodeOutputs_of_undeclared {err : OutputError}
    (h : outputs.forM (checkDeclared c e) = .error err) :
    decodeOutputs c e outputs slots = .error err := by
  simp only [decodeOutputs, h]
  rfl

/-- Once the named types are declared and the outputs planned, decoding reads each output by its
plan, in order. -/
theorem decodeOutputs_eq_mapM {plans : List OutputPlan}
    (hd : outputs.forM (checkDeclared c e) = .ok ()) (hp : planOutputs outputs = .ok plans) :
    decodeOutputs c e outputs slots =
      (outputs.zip plans).mapM fun q => decodeOutput c ⟨e, slots⟩ q.1 q.2 := by
  simp only [decodeOutputs, hd, hp]
  rfl

end Outputs

end Wire

/-! ## Main statement -/

/-- Outputs read disjoint slot ranges: each output's answer depends only on the slots in its
range, and the call answers one value per output in order. -/
theorem planned_outputs_read_own_slots (c : Catalog) (e : String) {outputs : List ResolvedType}
    {plans : List OutputPlan} (hp : planOutputs outputs = .ok plans) :
    plans.length = outputs.length ∧ plans.Pairwise OutputPlan.Apart ∧
    (∀ ty p, (ty, p) ∈ outputs.zip plans → p.strategy ≠ .group 0 →
      ∀ s s' : List (List UInt8), (∀ i, p.reads i = true → s[i]? = s'[i]?) →
        (Wire.decodeOutput c ⟨e, s⟩ ty p).mapError Wire.OutputError.withoutAvailable =
          (Wire.decodeOutput c ⟨e, s'⟩ ty p).mapError Wire.OutputError.withoutAvailable) ∧
    ∀ slots : List (List UInt8),
      (∀ err, outputs.forM (Wire.checkDeclared c e) = .error err →
        Wire.decodeOutputs c e outputs slots = .error err) ∧
      (outputs.forM (Wire.checkDeclared c e) = .ok () →
        (∀ vs, Wire.decodeOutputs c e outputs slots = .ok vs ↔
          List.Forall₂ (fun q v => Wire.decodeOutput c ⟨e, slots⟩ q.1 q.2 = .ok v)
            (outputs.zip plans) vs) ∧
        ∀ err, Wire.decodeOutputs c e outputs slots = .error err ↔
          ∃ pre q post, outputs.zip plans = pre ++ q :: post ∧
            (∀ r ∈ pre, ∃ v, Wire.decodeOutput c ⟨e, slots⟩ r.1 r.2 = .ok v) ∧
            Wire.decodeOutput c ⟨e, slots⟩ q.1 q.2 = .error err) :=
  ⟨planFrom_length hp, planFrom_apart hp,
    fun _ _ _ hg _ _ hagree => Wire.decodeOutput_frame hg hagree,
    fun _ => ⟨fun _ hd => Wire.decodeOutputs_of_undeclared hd,
      fun hd => ⟨fun _ => by rw [Wire.decodeOutputs_eq_mapM hd hp]; exact mapM_eq_ok_iff,
        fun _ => by rw [Wire.decodeOutputs_eq_mapM hd hp]; exact mapM_eq_error_iff⟩⟩⟩

/-- A count, one group of a token identifier and an amount, then an amount in every slot left. -/
def reserveOutputs : List ResolvedType :=
  [.primitive .u32, .multi "ComplexType0" [.primitive .tokenIdentifier, .primitive .bigUint],
    .variadic (.primitive .u64)]

/-- The plans of `reserveOutputs`: slot 0, slots 1 and 2, then slot 3 on. -/
def reservePlans : List OutputPlan := [⟨.scalar, 0⟩, ⟨.group 2, 1⟩, ⟨.eachSlot, 3⟩]

theorem reserveOutputs_read_own_slots :
    planOutputs reserveOutputs = .ok reservePlans ∧ reservePlans.Pairwise OutputPlan.Apart ∧
      (Wire.decodeOutput {} ⟨"getReserves", [[5], [69, 71, 76, 68], [3, 232]]⟩
          (.multi "ComplexType0" [.primitive .tokenIdentifier, .primitive .bigUint]) ⟨.group 2, 1⟩).mapError
          Wire.OutputError.withoutAvailable =
        (Wire.decodeOutput {} ⟨"getReserves", [[9, 9], [69, 71, 76, 68], [3, 232], [1]]⟩
          (.multi "ComplexType0" [.primitive .tokenIdentifier, .primitive .bigUint]) ⟨.group 2, 1⟩).mapError
          Wire.OutputError.withoutAvailable := by
  obtain ⟨-, hapart, hframe, -⟩ := planned_outputs_read_own_slots {} "getReserves"
    (rfl : planOutputs reserveOutputs = .ok reservePlans)
  refine ⟨rfl, hapart, hframe _ _ (by simp [reserveOutputs]) (by decide) _ _ ?_⟩
  intro i hi
  obtain ⟨h₁, h₂⟩ := (OutputPlan.reads_of_span (rfl : (DecodeStrategy.group 2).slotSpan? = some 2)).1 hi
  obtain rfl | rfl : i = 1 ∨ i = 2 := by omega
  all_goals rfl

/-- The composite `tuple<u8,u16>`. -/
def pairTuple : ResolvedType := .tuple "ComplexType0" [.primitive .u8, .primitive .u16]

/-- Where reading an output looks beyond its range: a missing slot's message, a group of no
member, and an undeclared composite. -/
theorem slot_frame_exceptions :
    planOutputs [.list pairTuple, .primitive .u8] = .ok [⟨.selfTerminating, 0⟩, ⟨.scalar, 1⟩] ∧
    (∀ i, (⟨.scalar, 1⟩ : OutputPlan).reads i = true →
      ([] : List (List UInt8))[i]? = [[(0 : UInt8)]][i]?) ∧
    Wire.decodeOutput {} ⟨"call", []⟩ (.primitive .u8) ⟨.scalar, 1⟩ ≠
      Wire.decodeOutput {} ⟨"call", [[0]]⟩ (.primitive .u8) ⟨.scalar, 1⟩ ∧
    planOutputs [.list pairTuple, .multi "ComplexType1" []] =
      .ok [⟨.selfTerminating, 0⟩, ⟨.group 0, 1⟩] ∧
    (∀ i, (⟨.group 0, 1⟩ : OutputPlan).reads i = false) ∧
    Wire.decodeOutput {} ⟨"call", []⟩ (.multi "ComplexType1" []) ⟨.group 0, 1⟩ ≠
      Wire.decodeOutput {} ⟨"call", [[0]]⟩ (.multi "ComplexType1" []) ⟨.group 0, 1⟩ ∧
    planOutputs [pairTuple] = .ok [⟨.scalar, 0⟩] ∧
    Wire.decodeOutputs {} "setPair" [pairTuple] [[1, 0, 2]] =
      .error (.unknownType "setPair" "ComplexType0") ∧
    Wire.decodeOutput {} ⟨"setPair", [[1, 0, 2]]⟩ pairTuple ⟨.scalar, 0⟩ =
      .ok (.record "ComplexType0" [("var0", .unsigned 1), ("var1", .unsigned 2)]) := by
  refine ⟨rfl, ?_, ?_, rfl, ?_, ?_, rfl, rfl, rfl⟩
  · intro i hi
    obtain ⟨h₁, h₂⟩ := (OutputPlan.reads_of_span (rfl : DecodeStrategy.scalar.slotSpan? = some 1)).1 hi
    obtain rfl : i = 1 := by omega
    rfl
  · intro h
    cases h
  · intro i
    simp only [OutputPlan.reads, DecodeStrategy.slotSpan?, Option.all_some, Bool.and_eq_false_iff,
      decide_eq_false_iff_not]
    omega
  · intro h
    cases h

end ContractAbi
