import Mathlib
import ContractAbi.Proofs.SlotRanges

/-!
# Slot planning against its reference

The reference plan is read off the outputs' strategies: output `i` takes its strategy and starts
where the spans of the outputs before it end, a scalar or a self-terminating list spanning one slot
and a group its width. Planning answers exactly when every output has a strategy and no output but
the last repeats, and it then answers the reference plan. Otherwise it fails at the first output,
in order, that follows a repeating output, with that complaint, or that has no strategy, with the
complaint of selection.

Planning walks the outputs with a cursor; its four equations on a first output, from
`planFrom_cons_of_error` to `planFrom_follows_repeating`, say all it does, and both directions of
both characterisations follow them by induction on the outputs.

Main statement: `planOutputs_matches_reference`.
-/

namespace ContractAbi

namespace DecodeStrategy

/-- The slots a strategy spans when another output follows it: one for a scalar or a
self-terminating list, the width for a group. A repeating strategy is never followed. -/
def span (s : DecodeStrategy) : Nat := s.slotSpan?.getD 0

theorem consumesRemaining_eq_false_iff {s : DecodeStrategy} :
    s.consumesRemaining = false ↔ s.slotSpan? = some s.span := by
  cases s <;> simp [consumesRemaining, slotSpan?, span]

theorem consumesRemaining_eq_true_iff {s : DecodeStrategy} :
    s.consumesRemaining = true ↔ s.slotSpan? = none := by
  cases s <;> simp [consumesRemaining, slotSpan?]

theorem span_of_slotSpan? {s : DecodeStrategy} {sp : Nat} (h : s.slotSpan? = some sp) :
    s.span = sp := by
  simp [span, h]

theorem consumesRemaining_eq_false_of_slotSpan? {s : DecodeStrategy} {sp : Nat}
    (h : s.slotSpan? = some sp) : s.consumesRemaining = false :=
  consumesRemaining_eq_false_iff.2 (by rw [h, span_of_slotSpan? h])

end DecodeStrategy

/-! ## The reference -/

/-- A plan moved `k` slots further on. -/
def OutputPlan.shift (k : Nat) (p : OutputPlan) : OutputPlan := ⟨p.strategy, k + p.firstSlot⟩

@[simp] theorem OutputPlan.shift_zero (p : OutputPlan) : p.shift 0 = p := by
  simp [OutputPlan.shift]

@[simp] theorem OutputPlan.shift_shift (j k : Nat) (p : OutputPlan) :
    (p.shift k).shift j = p.shift (j + k) := by
  simp [OutputPlan.shift, Nat.add_assoc]

/-- The reference plan of a list of strategies: output `i` takes strategy `i` and starts after the
spans of the strategies before it. -/
def referencePlans (ss : List DecodeStrategy) : List OutputPlan :=
  ss.mapIdx fun i s => ⟨s, ((ss.take i).map DecodeStrategy.span).sum⟩

@[simp] theorem length_referencePlans (ss : List DecodeStrategy) :
    (referencePlans ss).length = ss.length := by
  simp [referencePlans]

@[simp] theorem referencePlans_nil : referencePlans [] = [] := rfl

/-- The first output starts at slot zero, and the others after its span. -/
theorem referencePlans_cons (s : DecodeStrategy) (ss : List DecodeStrategy) :
    referencePlans (s :: ss) = ⟨s, 0⟩ :: (referencePlans ss).map (OutputPlan.shift s.span) := by
  apply List.ext_getElem
  · simp
  · intro i h₁ h₂
    cases i with
    | zero => simp [referencePlans]
    | succ i => simp [referencePlans, OutputPlan.shift, List.take_succ_cons]

/-- The reference from slot `k` on: the first output starts at `k`, the rest after its span. -/
theorem shift_referencePlans_cons (k : Nat) (s : DecodeStrategy) (ss : List DecodeStrategy) :
    (referencePlans (s :: ss)).map (OutputPlan.shift k) =
      ⟨s, k⟩ :: (referencePlans ss).map (OutputPlan.shift (k + s.span)) := by
  simp [referencePlans_cons, Function.comp_def, OutputPlan.shift, Nat.add_assoc]

/-- Strategies `ss` selected for the outputs `outs`, none of them repeating but perhaps the last. -/
def Plannable (outs : List ResolvedType) (ss : List DecodeStrategy) : Prop :=
  List.Forall₂ (fun o s => DecodeStrategy.select o = .ok s) outs ss ∧
    ∀ s ∈ ss.dropLast, s.consumesRemaining = false

/-- How planning fails at `o` after strategies `ss`: as following a repeating output when the
last repeats, else for its own shape. -/
def FailsAfter (ss : List DecodeStrategy) (o : ResolvedType) (err : ShapeError) : Prop :=
  if ss.getLast?.any DecodeStrategy.consumesRemaining then err = .at o .followsRepeating
  else DecodeStrategy.select o = .error err

section Reference

variable {o x : ResolvedType} {outs rest : List ResolvedType} {s : DecodeStrategy}
  {ss : List DecodeStrategy} {err : ShapeError}

theorem plannable_nil_iff : Plannable [] ss ↔ ss = [] := by
  constructor
  · exact fun h => List.forall₂_nil_left_iff.1 h.1
  · rintro rfl
    exact ⟨.nil, by simp⟩

/-- The first output is plannable with its strategy, which may repeat only when it is the last. -/
theorem plannable_cons_iff :
    Plannable (o :: outs) ss ↔ ∃ s ss', ss = s :: ss' ∧ DecodeStrategy.select o = .ok s ∧
      (ss' ≠ [] → s.consumesRemaining = false) ∧ Plannable outs ss' := by
  constructor
  · rintro ⟨hsel, hlast⟩
    obtain ⟨s, ss', hs, hrest, rfl⟩ := List.forall₂_cons_left_iff.1 hsel
    refine ⟨s, ss', rfl, hs, fun hne => hlast s ?_, hrest, fun t ht => hlast t ?_⟩
    · rw [List.dropLast_cons_of_ne_nil hne]
      exact List.mem_cons_self
    · have hne : ss' ≠ [] := by
        rintro rfl
        simp at ht
      rw [List.dropLast_cons_of_ne_nil hne]
      exact List.mem_cons_of_mem _ ht
  · rintro ⟨s, ss', rfl, hs, hrep, hrest, hlast⟩
    refine ⟨.cons hs hrest, fun t ht => ?_⟩
    rcases eq_or_ne ss' [] with rfl | hne
    · simp at ht
    · rw [List.dropLast_cons_of_ne_nil hne] at ht
      rcases List.mem_cons.1 ht with rfl | ht
      · exact hrep hne
      · exact hlast t ht

/-- Planning with the first output's strategy known: the plannable strategy lists start with it and
go on plannably, and go on at all only when it does not repeat. -/
theorem plannable_cons_of_select (hs : DecodeStrategy.select o = .ok s) :
    Plannable (o :: outs) ss ↔
      ∃ ss', ss = s :: ss' ∧ (ss' ≠ [] → s.consumesRemaining = false) ∧ Plannable outs ss' := by
  rw [plannable_cons_iff]
  constructor
  · rintro ⟨s', ss', rfl, hs', hrep, hp⟩
    obtain rfl : s' = s := Except.ok.inj (hs'.symm.trans hs)
    exact ⟨ss', rfl, hrep, hp⟩
  · rintro ⟨ss', rfl, hrep, hp⟩
    exact ⟨s, ss', rfl, hs, hrep, hp⟩

/-- A repeating first output is plannable only when nothing follows it. -/
theorem plannable_cons_of_repeating (hs : DecodeStrategy.select o = .ok s)
    (hrep : s.consumesRemaining = true) : Plannable (o :: outs) ss ↔ outs = [] ∧ ss = [s] := by
  rw [plannable_cons_of_select hs]
  constructor
  · rintro ⟨ss', rfl, hlast, hp⟩
    obtain rfl : ss' = [] := by
      by_contra hne
      rw [hlast hne] at hrep
      cases hrep
    exact ⟨List.forall₂_nil_right_iff.1 hp.1, rfl⟩
  · rintro ⟨rfl, rfl⟩
    exact ⟨[], rfl, fun h => absurd rfl h, plannable_nil_iff.2 rfl⟩

/-- Splitting outputs at a first failure: either the first output fails, with nothing planned
before it, or it is planned and the failure lies among the rest. -/
theorem exists_split_cons {P : List DecodeStrategy → ResolvedType → Prop} :
    (∃ pre o post ss, x :: rest = pre ++ o :: post ∧ Plannable pre ss ∧ P ss o) ↔
      P [] x ∨ ∃ s, DecodeStrategy.select x = .ok s ∧ ∃ pre o post ss, rest = pre ++ o :: post ∧
        Plannable pre ss ∧ (ss ≠ [] → s.consumesRemaining = false) ∧ P (s :: ss) o := by
  constructor
  · rintro ⟨pre, o, post, ss, hsplit, hp, hP⟩
    cases pre with
    | nil =>
      simp only [List.nil_append, List.cons.injEq] at hsplit
      obtain ⟨rfl, rfl⟩ := hsplit
      rw [plannable_nil_iff.1 hp] at hP
      exact .inl hP
    | cons y pre =>
      simp only [List.cons_append, List.cons.injEq] at hsplit
      obtain ⟨rfl, hrest⟩ := hsplit
      obtain ⟨s, ss', rfl, hs, hrep, hp'⟩ := plannable_cons_iff.1 hp
      exact .inr ⟨s, hs, pre, o, post, ss', hrest, hp', hrep, hP⟩
  · rintro (hP | ⟨s, hs, pre, o, post, ss, rfl, hp, hrep, hP⟩)
    · exact ⟨[], x, rest, [], rfl, plannable_nil_iff.2 rfl, hP⟩
    · exact ⟨x :: pre, o, post, s :: ss, rfl, plannable_cons_iff.2 ⟨s, ss, rfl, hs, hrep, hp⟩, hP⟩

theorem failsAfter_nil : FailsAfter [] o err ↔ DecodeStrategy.select o = .error err := by
  simp [FailsAfter]

/-- Behind a strategy that does not repeat, the outputs after it fail as they would alone. -/
theorem failsAfter_cons_of_not_repeating (hs : s.consumesRemaining = false) :
    FailsAfter (s :: ss) o err ↔ FailsAfter ss o err := by
  have hlast : (s :: ss).getLast?.any DecodeStrategy.consumesRemaining =
      ss.getLast?.any DecodeStrategy.consumesRemaining := by
    rw [List.getLast?_cons]
    cases ss.getLast? <;> simp [hs]
  simp only [FailsAfter, hlast]

theorem failsAfter_singleton_of_repeating (hs : s.consumesRemaining = true) :
    FailsAfter [s] o err ↔ err = .at o .followsRepeating := by
  simp [FailsAfter, hs]

end Reference

/-! ## Planning, one output at a time -/

section Equations

variable {cursor : Nat} {o next : ResolvedType} {rest : List ResolvedType} {s : DecodeStrategy}

theorem planFrom_cons_of_error {e : ShapeError} (hs : DecodeStrategy.select o = .error e) :
    planFrom cursor (o :: rest) = .error e := by
  rw [planFrom, hs]
  rfl

/-- A fixed strategy takes its span, and the rest is planned after it. -/
theorem planFrom_cons_of_span {sp : Nat} (hs : DecodeStrategy.select o = .ok s)
    (hsp : s.slotSpan? = some sp) :
    planFrom cursor (o :: rest) = (planFrom (cursor + sp) rest).map (⟨s, cursor⟩ :: ·) := by
  rw [planFrom, hs]
  simp only [bind, Except.bind, hsp]
  cases planFrom (cursor + sp) rest <;> rfl

/-- A repeating strategy takes the rest of the slots when its output is the last. -/
theorem planFrom_last_of_repeating (hs : DecodeStrategy.select o = .ok s)
    (hsp : s.slotSpan? = none) : planFrom cursor [o] = .ok [⟨s, cursor⟩] := by
  rw [planFrom, hs]
  simp only [bind, Except.bind, hsp]
  rfl

/-- An output after a repeating one is refused, whatever its shape. -/
theorem planFrom_follows_repeating (hs : DecodeStrategy.select o = .ok s)
    (hsp : s.slotSpan? = none) :
    planFrom cursor (o :: next :: rest) = .error (.at next .followsRepeating) := by
  rw [planFrom, hs]
  simp only [bind, Except.bind, hsp]
  rfl

end Equations

/-! ## Both characterisations -/

/-- Planning from `cursor` answers exactly the plannable reference, moved to start at `cursor`.
The induction is on the outputs, with the cursor free; each case is one of the four equations. -/
theorem planFrom_eq_ok_iff (cursor : Nat) (outs : List ResolvedType) (plans : List OutputPlan) :
    planFrom cursor outs = .ok plans ↔
      ∃ ss, Plannable outs ss ∧ plans = (referencePlans ss).map (OutputPlan.shift cursor) := by
  induction outs generalizing cursor plans with
  | nil => simp [planFrom, plannable_nil_iff, eq_comm]
  | cons x rest ih =>
    cases hsel : DecodeStrategy.select x with
    | error e =>
      rw [planFrom_cons_of_error hsel]
      refine ⟨nofun, ?_⟩
      rintro ⟨ss, hp, -⟩
      obtain ⟨s, -, -, hs, -⟩ := plannable_cons_iff.1 hp
      rw [hsel] at hs
      cases hs
    | ok s =>
      cases hsp : s.slotSpan? with
      | some sp =>
        have hspan : s.span = sp := DecodeStrategy.span_of_slotSpan? hsp
        have hrep := DecodeStrategy.consumesRemaining_eq_false_of_slotSpan? hsp
        rw [planFrom_cons_of_span hsel hsp, Except.map_eq_ok_iff]
        simp only [ih, plannable_cons_of_select hsel]
        constructor
        · rintro ⟨ps, ⟨ss', hp, rfl⟩, rfl⟩
          exact ⟨s :: ss', ⟨ss', rfl, fun _ => hrep, hp⟩, by rw [shift_referencePlans_cons, hspan]⟩
        · rintro ⟨_, ⟨ss', rfl, -, hp⟩, rfl⟩
          exact ⟨_, ⟨ss', hp, rfl⟩, by rw [shift_referencePlans_cons, hspan]⟩
      | none =>
        have hrep : s.consumesRemaining = true := DecodeStrategy.consumesRemaining_eq_true_iff.2 hsp
        simp only [plannable_cons_of_repeating hsel hrep]
        cases rest with
        | nil =>
          rw [planFrom_last_of_repeating hsel hsp, Except.ok.injEq]
          simp only [true_and, exists_eq_left, shift_referencePlans_cons, referencePlans_nil,
            List.map_nil]
          exact eq_comm
        | cons next more =>
          rw [planFrom_follows_repeating hsel hsp]
          simp

/-- Planning from any cursor fails exactly at a first output that fails after plannable ones. -/
theorem planFrom_eq_error_iff (cursor : Nat) (outs : List ResolvedType) (err : ShapeError) :
    planFrom cursor outs = .error err ↔
      ∃ pre o post ss, outs = pre ++ o :: post ∧ Plannable pre ss ∧ FailsAfter ss o err := by
  induction outs generalizing cursor with
  | nil => simp [planFrom]
  | cons x rest ih =>
    rw [exists_split_cons, failsAfter_nil]
    cases hsel : DecodeStrategy.select x with
    | error e =>
      rw [planFrom_cons_of_error hsel]
      simp only [Except.error.injEq, reduceCtorEq, false_and, exists_false, or_false]
    | ok s =>
      simp only [reduceCtorEq, false_or, Except.ok.injEq, exists_eq_left']
      cases hsp : s.slotSpan? with
      | some sp =>
        have hrep := DecodeStrategy.consumesRemaining_eq_false_of_slotSpan? hsp
        rw [planFrom_cons_of_span hsel hsp, Except.map_eq_error_iff, ih]
        simp only [failsAfter_cons_of_not_repeating hrep, hrep, implies_true, true_and]
      | none =>
        have hrep : s.consumesRemaining = true := DecodeStrategy.consumesRemaining_eq_true_iff.2 hsp
        cases rest with
        | nil =>
          rw [planFrom_last_of_repeating hsel hsp]
          simp
        | cons next more =>
          rw [planFrom_follows_repeating hsel hsp, Except.error.injEq]
          constructor
          · rintro rfl
            exact ⟨[], next, more, [], rfl, plannable_nil_iff.2 rfl, fun h => absurd rfl h,
              (failsAfter_singleton_of_repeating hrep).2 rfl⟩
          · rintro ⟨pre, o, post, ss, hsplit, hp, hlast, hfail⟩
            obtain rfl : ss = [] := by
              by_contra hne
              rw [hlast hne] at hrep
              cases hrep
            obtain rfl : pre = [] := List.forall₂_nil_right_iff.1 hp.1
            obtain ⟨rfl, -⟩ := List.cons.inj hsplit
            exact ((failsAfter_singleton_of_repeating hrep).1 hfail).symm

/-- Slot planning matches its reference: it answers the reference plan exactly when the outputs
are plannable, and otherwise fails as `FailsAfter` says. -/
theorem planOutputs_matches_reference (outs : List ResolvedType) :
    (∀ plans, planOutputs outs = .ok plans ↔ ∃ ss, Plannable outs ss ∧ plans = referencePlans ss) ∧
      ∀ err, planOutputs outs = .error err ↔
        ∃ pre o post ss, outs = pre ++ o :: post ∧ Plannable pre ss ∧ FailsAfter ss o err := by
  refine ⟨fun plans => ?_, planFrom_eq_error_iff 0 outs⟩
  have hid : OutputPlan.shift 0 = id := funext OutputPlan.shift_zero
  rw [planOutputs, planFrom_eq_ok_iff]
  simp only [hid, List.map_id]

example :
    planOutputs [.primitive .bigUint, .multi "ComplexType0" [.primitive .u64, .primitive .u64],
        .list (.record "Undelegation"), .variadic (.primitive .address)] =
      .ok [⟨.scalar, 0⟩, ⟨.group 2, 1⟩, ⟨.selfTerminating, 3⟩, ⟨.eachSlot, 4⟩] := by
  rfl

end ContractAbi
