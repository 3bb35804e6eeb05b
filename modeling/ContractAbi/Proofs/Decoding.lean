import ContractAbi.Wire.Outputs
import ContractAbi.Binding.Decode
import ContractAbi.Proofs.Registry
import ContractAbi.Proofs.DecoderReaders

/-!
# Decoders agree with strategy selection

Strategy selection decides, from a resolved shape alone, how an output is read. The generated
decoder and the reflector both read by the selected strategy, and both have fallback arms for
shapes their strategy cannot read. This module shows those arms are never taken: the generated
decoder statement exists for every selected strategy, and, over a catalog whose record fields fit
inside records and name only declared types, every failure the reflector's readers can end in is
caused by the bytes read, never by the type being read.

Main statement: `decoders_agree_with_selection`.
-/

namespace ContractAbi

/-! ## Failures of traversals in the exception monad -/

section Traversals

variable {ε α β : Type}

theorem bind_eq_ok {x : Except ε α} {f : α → Except ε β} {b : β} (h : x >>= f = .ok b) :
    ∃ a, x = .ok a ∧ f a = .ok b := by
  cases x with
  | error e => cases h
  | ok a => exact ⟨a, rfl, h⟩

theorem Except.map_eq_ok_iff {f : α → β} {x : Except ε α} {b : β} :
    x.map f = .ok b ↔ ∃ a, x = .ok a ∧ f a = b := by
  cases x <;> simp [Except.map]

theorem Except.map_eq_error_iff {f : α → β} {x : Except ε α} {e : ε} :
    x.map f = .error e ↔ x = .error e := by
  cases x <;> simp [Except.map]

theorem bind_eq_error {x : Except ε α} {f : α → Except ε β} {e : ε} (h : x >>= f = .error e) :
    x = .error e ∨ ∃ a, x = .ok a ∧ f a = .error e := by
  cases x with
  | error e' =>
    cases h
    exact .inl rfl
  | ok a => exact .inr ⟨a, rfl, h⟩

theorem mapError_eq_error {ε' : Type} {x : Except ε α} {g : ε → ε'} {e : ε'}
    (h : x.mapError g = .error e) : ∃ e₀, x = .error e₀ ∧ e = g e₀ := by
  cases x with
  | error e₀ =>
    cases h
    exact ⟨e₀, rfl, rfl⟩
  | ok a => cases h

theorem forM_ok {f : α → Except ε PUnit} :
    ∀ {xs : List α}, xs.forM f = .ok () → ∀ x ∈ xs, f x = .ok ()
  | [], _, _, hx => by cases hx
  | x :: xs, h, y, hy => by
    rw [List.forM_eq_forM, List.forM_cons] at h
    obtain ⟨⟨⟩, hx, hxs⟩ := bind_eq_ok h
    rcases List.mem_cons.1 hy with rfl | hy
    · exact hx
    · exact forM_ok hxs y hy

/-- A traversal that fails failed on one of the elements. -/
theorem mapM_error {f : α → Except ε β} {e : ε} :
    ∀ {xs : List α}, xs.mapM f = .error e → ∃ x ∈ xs, f x = .error e
  | [], h => by cases h
  | x :: xs, h => by
    rw [List.mapM_cons] at h
    rcases bind_eq_error h with hx | ⟨b, -, hrest⟩
    · exact ⟨x, List.mem_cons_self, hx⟩
    · rcases bind_eq_error hrest with hxs | ⟨bs, -, hpure⟩
      · obtain ⟨y, hy, hfy⟩ := mapM_error hxs
        exact ⟨y, List.mem_cons_of_mem x hy, hfy⟩
      · cases hpure

/-- A fold that fails failed at one of its steps. -/
theorem foldlM_error {f : β → α → Except ε β} {e : ε} :
    ∀ {xs : List α} {init : β}, xs.foldlM f init = .error e → ∃ acc, ∃ x ∈ xs, f acc x = .error e
  | [], _, h => by cases h
  | x :: xs, init, h => by
    rw [List.foldlM_cons] at h
    rcases bind_eq_error h with hx | ⟨acc, -, hrest⟩
    · exact ⟨init, x, List.mem_cons_self, hx⟩
    · obtain ⟨acc', y, hy, hfy⟩ := foldlM_error hrest
      exact ⟨acc', y, List.mem_cons_of_mem x hy, hfy⟩

end Traversals

namespace Wire

/-- A failure caused by the type being read rather than by the bytes: a shape no reader handles
where it stands, or a named type the catalog lacks. -/
def WireError.isShapeFault : WireError → Bool
  | .unsupportedShape _ | .undeclaredType _ => true
  | _ => false

/-- Every failure of `f` is caused by the bytes it reads. -/
def OnlyDataFaults {β γ : Type} (f : β → Except WireError γ) : Prop :=
  ∀ x e, f x = .error e → e.isShapeFault = false

namespace OnlyDataFaults

variable {α β : Type}

theorem of_ok {β γ : Type} {f : β → Except WireError γ} (h : ∀ x, ∃ v, f x = .ok v) :
    OnlyDataFaults f := by
  intro x e hx
  obtain ⟨v, hv⟩ := h x
  rw [hv] at hx
  cases hx

theorem fail {e : WireError} (h : e.isShapeFault = false) :
    OnlyDataFaults (Reader.fail e : Reader α) := by
  intro bs e' he
  cases he
  exact h

theorem pure (a : α) : OnlyDataFaults (Reader.pure a) :=
  of_ok fun _ => ⟨_, rfl⟩

theorem bind {r : Reader α} {f : α → Reader β} (hr : OnlyDataFaults r)
    (hf : ∀ a, OnlyDataFaults (f a)) : OnlyDataFaults (r.bind f) := by
  intro bs e h
  unfold Reader.bind at h
  split at h
  · exact hf _ _ e h
  · rename_i e' he
    cases h
    exact hr bs _ he

theorem map {r : Reader α} (f : α → β) (hr : OnlyDataFaults r) : OnlyDataFaults (r.map f) := by
  intro bs e h
  unfold Reader.map at h
  split at h
  · cases h
  · rename_i e' he
    cases h
    exact hr bs _ he

theorem exceptMap {β γ δ : Type} {f : β → Except WireError γ} (g : γ → δ)
    (hf : OnlyDataFaults f) : OnlyDataFaults fun x => (f x).map g := by
  intro x e h
  dsimp only at h
  cases hx : f x with
  | error e' =>
    rw [hx] at h
    cases h
    exact hf x _ hx
  | ok v =>
    rw [hx] at h
    cases h

end OnlyDataFaults

/-- A property of readers that holds of the empty read, and that one more named item read by a
reader with property `Q` keeps, holds of every run of named reads. -/
theorem readNamed_induction (P : Reader (List (String × Value)) → Prop) (Q : Reader Value → Prop)
    (hpure : P (Reader.pure []))
    (hstep : ∀ acc n r, P acc → Q r → P (acc.bind fun fs => r.map fun v => OrderedMap.insert fs n v))
    {items : List (String × Reader Value)} (h : ∀ it ∈ items, Q it.2) : P (readNamed items) := by
  unfold readNamed
  suffices ∀ (its : List (String × Reader Value)) (acc : Reader (List (String × Value))),
      (∀ it ∈ its, Q it.2) → P acc →
      P (its.foldl (fun acc it =>
        Reader.bind acc fun fs => Reader.map (fun v => OrderedMap.insert fs it.1 v) it.2) acc) from
    this items _ h hpure
  intro its
  induction its with
  | nil => exact fun _ _ hacc => hacc
  | cons it its ih =>
    intro acc hits hacc
    exact ih _ (fun x hx => hits x (List.mem_cons_of_mem _ hx))
      (hstep acc it.1 it.2 hacc (hits it List.mem_cons_self))

/-! ## The byte readers fail only on bytes -/

section Readers

open OnlyDataFaults

theorem take_dataOnly (n : Nat) : OnlyDataFaults (take n) := by
  intro bs e h
  unfold take at h
  split at h <;> cases h
  rfl

theorem readFixed_dataOnly (w : Nat) : OnlyDataFaults (readFixed w) :=
  map _ (take_dataOnly w)

theorem readBool_dataOnly : OnlyDataFaults readBool := by
  intro bs e h
  unfold readBool at h
  split at h
  · split at h
    · cases h
    · split at h <;> cases h
      rfl
  · cases h
  · rename_i e' he
    cases h
    exact take_dataOnly 1 bs _ he

theorem readBytes_dataOnly : OnlyDataFaults readBytes :=
  bind (readFixed_dataOnly 4) take_dataOnly

theorem readString_dataOnly : OnlyDataFaults readString := by
  refine bind readBytes_dataOnly fun bytes bs e h => ?_
  split at h <;> cases h
  rfl

theorem readMany_dataOnly {item : Reader α} (hi : OnlyDataFaults item) :
    ∀ n, OnlyDataFaults (readMany item n)
  | 0 => pure _
  | n + 1 => bind hi fun _ => map _ (readMany_dataOnly hi n)

theorem readList_dataOnly {item : Reader α} (hi : OnlyDataFaults item) :
    OnlyDataFaults (readList item) :=
  bind (readFixed_dataOnly 4) (readMany_dataOnly hi)

/-- Named items read in order fail only where one of the items does. -/
theorem readNamed_dataOnly {items : List (String × Reader Value)}
    (h : ∀ it ∈ items, OnlyDataFaults it.2) : OnlyDataFaults (readNamed items) :=
  readNamed_induction _ _ (pure _) (fun _ _ _ hacc hr => bind hacc fun _ => map _ hr) h

theorem nestedPrimitive_dataOnly (p : Primitive) : OnlyDataFaults (nestedPrimitive p) := by
  cases p with
  | bool => exact map _ readBool_dataOnly
  | u8 | u16 | u32 | u64 => exact map _ (readFixed_dataOnly _)
  | bigUint | bigInt => exact map _ (map _ readBytes_dataOnly)
  | bytes => exact map _ readBytes_dataOnly
  | utf8String | tokenIdentifier | egldOrEsdtTokenIdentifier => exact map _ readString_dataOnly
  | address => exact map _ (take_dataOnly _)

theorem topUnsigned_dataOnly (w : Nat) (t : String) : OnlyDataFaults (topUnsigned w t) := by
  intro slot e h
  unfold topUnsigned at h
  dsimp only at h
  split at h <;> cases h
  rfl

theorem topFixed_dataOnly (w : Nat) (t : String) : OnlyDataFaults (topFixed w t) :=
  exceptMap _ (topUnsigned_dataOnly w t)

theorem topString_dataOnly : OnlyDataFaults topString := by
  intro slot e h
  unfold topString at h
  split at h <;> cases h
  rfl

theorem topAddress_dataOnly : OnlyDataFaults topAddress := by
  intro slot e h
  unfold topAddress at h
  split at h <;> cases h
  rfl

theorem topPrimitive_dataOnly (p : Primitive) : OnlyDataFaults (topPrimitive p) := by
  cases p with
  | bool | bigUint | bigInt | bytes => exact of_ok fun _ => ⟨_, rfl⟩
  | u8 | u16 | u32 | u64 => exact exceptMap _ (topFixed_dataOnly _ _)
  | utf8String | tokenIdentifier | egldOrEsdtTokenIdentifier => exact exceptMap _ topString_dataOnly
  | address => exact exceptMap _ topAddress_dataOnly

end Readers

/-! ## Declared types -/

section Declared

variable {c : Catalog} {e : String}

theorem checkMembers_ok :
    ∀ {ms : List ResolvedType}, checkDeclared.checkMembers c e ms = .ok () →
      ∀ m ∈ ms, checkDeclared c e m = .ok ()
  | [], _, _, hm => by cases hm
  | m :: ms, h, m', hm' => by
    unfold checkDeclared.checkMembers at h
    cases hm : checkDeclared c e m with
    | error err =>
      rw [hm] at h
      cases h
    | ok u =>
      rw [hm] at h
      rcases List.mem_cons.1 hm' with rfl | hm'
      · exact hm
      · exact checkMembers_ok h m' hm'

theorem checkDeclared_record {n : String} (h : checkDeclared c e (.record n) = .ok ()) :
    c.records.contains n = true := by
  unfold checkDeclared at h
  split at h
  · assumption
  · cases h

theorem checkDeclared_enum {n : String} (h : checkDeclared c e (.enum n) = .ok ()) :
    c.enums.contains n = true := by
  unfold checkDeclared at h
  split at h
  · assumption
  · cases h

/-- The members of a declared composite are declared. -/
theorem checkDeclared_members {ty : ResolvedType} {n : String} {ms : List ResolvedType}
    (h : checkDeclared c e ty = .ok ()) (hty : ty.composite? = some (n, ms)) :
    ∀ m ∈ ms, checkDeclared c e m = .ok () := by
  cases ty with
  | tuple n' ms' =>
    simp only [ResolvedType.composite?, Option.some.injEq, Prod.mk.injEq] at hty
    obtain ⟨rfl, rfl⟩ := hty
    unfold checkDeclared at h
    split at h
    · exact checkMembers_ok h
    · cases h
  | multiVariadic n' ms' | multi n' ms' =>
    simp only [ResolvedType.composite?, Option.some.injEq, Prod.mk.injEq] at hty
    obtain ⟨rfl, rfl⟩ := hty
    exact checkMembers_ok h
  | primitive | record | enum | list | variadic => cases hty

end Declared

/-- What resolving the named types guarantees of a catalog: every record field fits inside a
record and names only declared types. -/
def WellFormed (c : Catalog) : Prop :=
  ∀ r ∈ c.records, ∀ f ∈ r.2, Shape.checkNested f.type = .ok () ∧ ∀ e, checkDeclared c e f.type = .ok ()

end Wire

/-! ## Shapes that pass their checks -/

namespace Shape

theorem checkNestedAll_eq_forM (ms : List ResolvedType) : checkNestedAll ms = ms.forM checkNested := by
  induction ms with
  | nil => rfl
  | cons m ms ih =>
    rw [checkNestedAll, ih]
    rfl

theorem checkNestedAll_ok {ms : List ResolvedType} (h : checkNestedAll ms = .ok ()) :
    ∀ m ∈ ms, checkNested m = .ok () :=
  forM_ok (checkNestedAll_eq_forM ms ▸ h)

/-- A list inside a record holds items that fit inside a record. -/
theorem checkNested_list {i : ResolvedType} (h : checkNested (.list i) = .ok ()) :
    checkNested i = .ok () := by
  cases i with
  | list j => simp [checkNested] at h
  | _ => exact h

/-- What fills a whole slot: a primitive, an enum, a record, or a tuple of nested values. -/
theorem checkTopLevel_cases {ty : ResolvedType} (h : checkTopLevel ty = .ok ()) :
    (∃ p, ty = .primitive p) ∨ (∃ n, ty = .enum n) ∨ (∃ n, ty = .record n) ∨
      ∃ n ms, ty = .tuple n ms ∧ checkNested ty = .ok () := by
  cases ty with
  | primitive p => exact .inl ⟨p, rfl⟩
  | enum n => exact .inr (.inl ⟨n, rfl⟩)
  | record n => exact .inr (.inr (.inl ⟨n, rfl⟩))
  | tuple n ms => exact .inr (.inr (.inr ⟨n, ms, rfl, h⟩))
  | list | variadic | multiVariadic | multi => cases h

/-- A group member other than a list of records fills a whole slot. -/
theorem checkGroupMember_cases {m : ResolvedType} (h : checkGroupMember m = .ok ()) :
    (∃ i, m = .list i ∧ i.isRecordLike = true ∧ checkNested i = .ok ()) ∨
      ((∀ i, m ≠ .list i) ∧ checkTopLevel m = .ok ()) := by
  cases m with
  | list i =>
    by_cases hi : i.isRecordLike = true
    · simp only [checkGroupMember, hi, if_true] at h
      exact .inl ⟨i, rfl, hi, h⟩
    · simp [checkGroupMember, hi] at h
  | _ => exact .inr ⟨fun _ => nofun, h⟩

theorem checkGroupMembers_eq_forM (ms : List ResolvedType) :
    checkGroupMembers ms = ms.forM checkGroupMember := by
  induction ms with
  | nil => rfl
  | cons m ms ih =>
    rw [checkGroupMembers, ih]
    rfl

theorem checkGroupMembers_ok {ms : List ResolvedType} (h : checkGroupMembers ms = .ok ()) :
    ∀ m ∈ ms, checkGroupMember m = .ok () :=
  forM_ok (checkGroupMembers_eq_forM ms ▸ h)

end Shape

/-! ## Selection and plans -/

/-- What selection accepts, and the strategy it picks for each shape. -/
theorem DecodeStrategy.select_ok {ty : ResolvedType} {s : DecodeStrategy}
    (h : DecodeStrategy.select ty = .ok s) :
    (∃ i, ty = .list i ∧ i.isRecordLike = true ∧ Shape.checkNested i = .ok () ∧
        s = .selfTerminating) ∨
      (∃ i, (ty = .list i ∨ ty = .variadic i) ∧ Shape.checkTopLevel i = .ok () ∧ s = .eachSlot) ∨
      (∃ n ms, ty = .multiVariadic n ms ∧ Shape.checkGroupMembers ms = .ok () ∧
        s = .groups ms.length) ∨
      (∃ n ms, ty = .multi n ms ∧ Shape.checkGroupMembers ms = .ok () ∧ s = .group ms.length) ∨
      (Shape.checkTopLevel ty = .ok () ∧ s = .scalar) := by
  cases ty with
  | list i =>
    by_cases hi : i.isRecordLike = true
    · simp only [select, hi, if_true] at h
      obtain ⟨⟨⟩, hn, hs⟩ := bind_eq_ok h
      cases hs
      exact .inl ⟨i, rfl, hi, hn, rfl⟩
    · simp only [select, hi] at h
      obtain ⟨⟨⟩, ht, hs⟩ := bind_eq_ok h
      cases hs
      exact .inr (.inl ⟨i, .inl rfl, ht, rfl⟩)
  | variadic i =>
    obtain ⟨⟨⟩, ht, hs⟩ := bind_eq_ok h
    cases hs
    exact .inr (.inl ⟨i, .inr rfl, ht, rfl⟩)
  | multiVariadic n ms =>
    obtain ⟨⟨⟩, hms, hs⟩ := bind_eq_ok h
    cases hs
    exact .inr (.inr (.inl ⟨n, ms, rfl, hms, rfl⟩))
  | multi n ms =>
    obtain ⟨⟨⟩, hms, hs⟩ := bind_eq_ok h
    cases hs
    exact .inr (.inr (.inr (.inl ⟨n, ms, rfl, hms, rfl⟩)))
  | primitive | record | enum | tuple =>
    obtain ⟨⟨⟩, ht, hs⟩ := bind_eq_ok h
    cases hs
    exact .inr (.inr (.inr (.inr ⟨ht, rfl⟩)))

/-- Every output is planned with the strategy selection picks for it. -/
theorem planFrom_select : ∀ {cursor : Nat} {tys : List ResolvedType} {plans : List OutputPlan},
    planFrom cursor tys = .ok plans →
      ∀ ty p, (ty, p) ∈ tys.zip plans → DecodeStrategy.select ty = .ok p.strategy
  | _, [], _, _, _, _, hmem => by simp at hmem
  | cursor, ty :: rest, plans, h, ty', p, hmem => by
    unfold planFrom at h
    obtain ⟨s, hs, h⟩ := bind_eq_ok h
    split at h
    · rename_i span _
      obtain ⟨ps, hps, h⟩ := bind_eq_ok h
      cases h
      rcases List.mem_cons.1 hmem with hhead | htail
      · simp only [Prod.mk.injEq] at hhead
        obtain ⟨rfl, rfl⟩ := hhead
        exact hs
      · exact planFrom_select hps ty' p htail
    · split at h
      · cases h
        simp only [List.zip_cons_cons, List.zip_nil_left, List.mem_singleton, Prod.mk.injEq] at hmem
        obtain ⟨rfl, rfl⟩ := hmem
        exact hs
      · cases h

/-! ## The generated decoder exists for every selected strategy -/

namespace Binding

theorem topDecodeFn_ok {ty : ResolvedType} (h : Shape.checkTopLevel ty = .ok ()) :
    ∃ f, topDecodeFn ty = .ok f := by
  rcases Shape.checkTopLevel_cases h with ⟨p, rfl⟩ | ⟨n, rfl⟩ | ⟨n, rfl⟩ | ⟨n, ms, rfl, -⟩ <;>
    exact ⟨_, rfl⟩

theorem groupMember_ok {m : ResolvedType} (h : Shape.checkGroupMember m = .ok ()) (index : Nat) :
    ∃ v, groupMember index m = .ok v := by
  rcases Shape.checkGroupMember_cases h with ⟨i, rfl, hi, -⟩ | ⟨hnl, ht⟩
  · exact ⟨_, by rw [groupMember, if_pos hi]⟩
  · obtain ⟨f, hf⟩ := topDecodeFn_ok ht
    exact ⟨_, by rw [groupMember.eq_2 index m hnl, hf]; rfl⟩

theorem groupFields_ok :
    ∀ {ms : List ResolvedType}, Shape.checkGroupMembers ms = .ok () →
      ∀ index, ∃ fs, groupFields index ms = .ok fs
  | [], _, _ => ⟨[], rfl⟩
  | m :: ms, h, index => by
    rw [Shape.checkGroupMembers_eq_forM, List.forM_eq_forM, List.forM_cons] at h
    obtain ⟨⟨⟩, hm, hms⟩ := bind_eq_ok h
    obtain ⟨v, hv⟩ := groupMember_ok hm index
    obtain ⟨fs, hfs⟩ := groupFields_ok ((Shape.checkGroupMembers_eq_forM ms).trans hms) (index + 1)
    exact ⟨_, by rw [groupFields, hv, hfs]; rfl⟩

theorem groupConstructor_ok {ms : List ResolvedType} (h : Shape.checkGroupMembers ms = .ok ())
    (name : String) : ∃ g, groupConstructor name ms = .ok g := by
  obtain ⟨fs, hfs⟩ := groupFields_ok h 0
  exact ⟨_, by rw [groupConstructor, hfs]; rfl⟩

/-- The generated statement for an output exists for whatever strategy selection picks: the
fallback arm and the whole-slot decoder's failure are never reached. -/
theorem outputDecode_ok {ty : ResolvedType} {s : DecodeStrategy}
    (h : DecodeStrategy.select ty = .ok s) (index firstSlot level : Nat) :
    ∃ code, outputDecode index ty ⟨s, firstSlot⟩ level = .ok code := by
  rcases DecodeStrategy.select_ok h with ⟨i, rfl, -, -, rfl⟩ | ⟨i, hty, ht, rfl⟩ |
    ⟨n, ms, rfl, hms, rfl⟩ | ⟨n, ms, rfl, hms, rfl⟩ | ⟨ht, rfl⟩
  · exact ⟨_, rfl⟩
  · obtain ⟨f, hf⟩ := topDecodeFn_ok ht
    rcases hty with rfl | rfl <;> exact ⟨_, by simp only [outputDecode, hf]; rfl⟩
  · obtain ⟨g, hg⟩ := groupConstructor_ok hms n
    exact ⟨_, by simp only [outputDecode, hg]; rfl⟩
  · obtain ⟨g, hg⟩ := groupConstructor_ok hms n
    exact ⟨_, by simp only [outputDecode, hg]; rfl⟩
  · obtain ⟨f, hf⟩ := topDecodeFn_ok ht
    exact ⟨_, by simp only [outputDecode, hf]; rfl⟩

end Binding

/-! ## The reflector's readers fail only on bytes -/

namespace Wire

open OnlyDataFaults

section Readers

variable {c : Catalog} {e : String}

theorem enumValue_dataOnly {n : String} (h : c.enums.contains n = true) :
    OnlyDataFaults (enumValue c n) := by
  obtain ⟨vs, hvs⟩ := OrderedMap.exists_get?_of_contains h
  intro d err hd
  unfold enumValue at hd
  rw [hvs] at hd
  dsimp only at hd
  split at hd <;> cases hd
  rfl

theorem mem_numbered {α : Type} {ms : List α} {k : String} {m : α} (h : (k, m) ∈ numbered ms) :
    m ∈ ms := by
  simp only [numbered, List.mem_map, Prod.mk.injEq] at h
  obtain ⟨⟨i, m'⟩, hm, -, rfl⟩ := h
  exact List.of_mem_zip hm |>.2

/-- Nested reading of a type that fits inside a record, over a well-formed catalog, fails only
on the bytes, whatever the fuel. -/
theorem nestedValue_dataOnly (hc : WellFormed c) :
    ∀ (fuel : Nat) (ty : ResolvedType), Shape.checkNested ty = .ok () →
      checkDeclared c e ty = .ok () → OnlyDataFaults (nestedValue c fuel ty)
  | 0, _, _, _ => fail rfl
  | fuel + 1, ty, hn, hd => by
    cases ty with
    | primitive p => exact nestedPrimitive_dataOnly p
    | enum n =>
      refine bind (readFixed_dataOnly 1) fun d bs err h => ?_
      cases hv : enumValue c n d with
      | error err' =>
        rw [hv] at h
        cases h
        exact enumValue_dataOnly (checkDeclared_enum hd) d _ hv
      | ok v =>
        rw [hv] at h
        cases h
    | record n =>
      obtain ⟨fs, hfs⟩ := OrderedMap.exists_get?_of_contains (checkDeclared_record hd)
      have hmem := OrderedMap.mem_of_get? hfs
      simp only [nestedValue, hfs]
      refine map _ (readNamed_dataOnly fun it hit => ?_)
      obtain ⟨f, hf, rfl⟩ := List.mem_map.1 hit
      obtain ⟨hfn, hfd⟩ := hc _ hmem f hf
      exact nestedValue_dataOnly hc fuel f.type hfn (hfd e)
    | tuple n ms =>
      refine map _ (readNamed_dataOnly fun it hit => ?_)
      obtain ⟨⟨k, m⟩, hkm, rfl⟩ := List.mem_map.1 hit
      have hm := mem_numbered hkm
      exact nestedValue_dataOnly hc fuel m (Shape.checkNestedAll_ok hn m hm)
        (checkDeclared_members hd rfl m hm)
    | list i =>
      exact map _ (readList_dataOnly
        (nestedValue_dataOnly hc fuel i (Shape.checkNested_list hn) hd))
    | variadic | multiVariadic | multi => cases hn

theorem nested_dataOnly (hc : WellFormed c) {ty : ResolvedType}
    (hn : Shape.checkNested ty = .ok ()) (hd : checkDeclared c e ty = .ok ()) :
    OnlyDataFaults (nested c ty) := by
  intro bs
  rw [nested_eq_nestedValue]
  exact nestedValue_dataOnly hc _ ty hn hd bs

theorem topValue_dataOnly (hc : WellFormed c) {ty : ResolvedType}
    (ht : Shape.checkTopLevel ty = .ok ()) (hd : checkDeclared c e ty = .ok ()) :
    OnlyDataFaults (topValue c ty) := by
  rcases Shape.checkTopLevel_cases ht with ⟨p, rfl⟩ | ⟨n, rfl⟩ | ⟨n, rfl⟩ | ⟨n, ms, rfl, hn⟩
  · exact topPrimitive_dataOnly p
  · intro slot err h
    simp only [topValue] at h
    cases hu : topFixed 1 "u8" slot with
    | error err' =>
      rw [hu] at h
      cases h
      exact topFixed_dataOnly 1 "u8" slot _ hu
    | ok d =>
      rw [hu] at h
      exact enumValue_dataOnly (checkDeclared_enum hd) d err h
  · exact exceptMap _ (nested_dataOnly hc rfl hd)
  · exact exceptMap _ (nested_dataOnly hc hn hd)

theorem memberValue_dataOnly (hc : WellFormed c) {m : ResolvedType}
    (hm : Shape.checkGroupMember m = .ok ()) (hd : checkDeclared c e m = .ok ()) :
    OnlyDataFaults (memberValue c m) := by
  rcases Shape.checkGroupMember_cases hm with ⟨i, rfl, hi, -⟩ | ⟨hnl, ht⟩
  · refine of_ok fun slot => ⟨.list (selfTerminating (nested c i) slot), ?_⟩
    simp only [memberValue, hi, if_true]
  · intro slot err h
    rw [memberValue.eq_2 c m slot hnl] at h
    exact topValue_dataOnly hc ht hd slot err h

theorem groupValue_dataOnly (hc : WellFormed c) {n : String} {ms : List ResolvedType}
    (hm : Shape.checkGroupMembers ms = .ok ()) (hd : ∀ m ∈ ms, checkDeclared c e m = .ok ()) :
    OnlyDataFaults (groupValue c n ms) := by
  intro group err h
  rcases bind_eq_error h with hfold | ⟨values, -, hpure⟩
  · obtain ⟨acc, ⟨k, m, slot⟩, hmem, hstep⟩ := foldlM_error hfold
    have hms : m ∈ ms := (List.of_mem_zip (mem_numbered hmem)).1
    rcases bind_eq_error hstep with hv | ⟨v, -, hpure⟩
    · exact memberValue_dataOnly hc (Shape.checkGroupMembers_ok hm m hms) (hd m hms) slot err hv
    · cases hpure
  · cases hpure

end Readers

/-! ## Whole outputs fail only on the returned slots -/

section Outputs

variable {c : Catalog} {α : Type} {d : Slots} {err : CallError}

theorem Slots.scalar_error {index : Nat} {decode : List UInt8 → Except WireError α}
    (hdec : OnlyDataFaults decode) (h : d.scalar index decode = .error err) :
    ∃ idx w, err = .invalidResponse d.endpoint idx w ∧ w.isShapeFault = false := by
  rcases bind_eq_error h with hget | ⟨slot, -, hread⟩
  · unfold Slots.get at hget
    split at hget <;> cases hget
    exact ⟨_, _, rfl, rfl⟩
  · obtain ⟨w, hw, rfl⟩ := mapError_eq_error hread
    exact ⟨index, w, rfl, hdec slot w hw⟩

theorem Slots.group_error {start width : Nat} {decode : List (List UInt8) → Except WireError α}
    (hdec : OnlyDataFaults decode) (h : d.group start width decode = .error err) :
    ∃ idx w, err = .invalidResponse d.endpoint idx w ∧ w.isShapeFault = false := by
  unfold Slots.group at h
  split at h
  · cases h
    exact ⟨_, _, rfl, rfl⟩
  · obtain ⟨w, hw, rfl⟩ := mapError_eq_error h
    exact ⟨start, w, rfl, hdec _ w hw⟩

/-- An output read by the strategy selected for it, over a well-formed catalog, fails only
because a slot it reads is missing or does not read. -/
theorem decodeOutput_error (hc : WellFormed c) {ty : ResolvedType} {p : OutputPlan}
    {err : OutputError} (hs : DecodeStrategy.select ty = .ok p.strategy)
    (hd : checkDeclared c d.endpoint ty = .ok ()) (h : decodeOutput c d ty p = .error err) :
    ∃ idx w, err = .call (.invalidResponse d.endpoint idx w) ∧ w.isShapeFault = false := by
  obtain ⟨s, k⟩ := p
  rcases DecodeStrategy.select_ok hs with ⟨i, rfl, -, -, rfl⟩ | ⟨i, hty, -, rfl⟩ |
    ⟨n, ms, rfl, -, rfl⟩ | ⟨n, ms, rfl, hms, rfl⟩ | ⟨ht, rfl⟩
  · cases h
  · rcases hty with rfl | rfl <;> cases h
  · cases h
  · simp only [decodeOutput] at h
    obtain ⟨ce, hce, rfl⟩ := mapError_eq_error h
    have hms' : ∀ m ∈ ms, checkDeclared c d.endpoint m = .ok () :=
      fun m hm => checkDeclared_members hd rfl m hm
    obtain ⟨idx, w, rfl, hw⟩ := Slots.group_error (groupValue_dataOnly hc hms hms') hce
    exact ⟨idx, w, rfl, hw⟩
  · simp only [decodeOutput] at h
    obtain ⟨ce, hce, rfl⟩ := mapError_eq_error h
    obtain ⟨idx, w, rfl, hw⟩ := Slots.scalar_error (topValue_dataOnly hc ht hd) hce
    exact ⟨idx, w, rfl, hw⟩

/-- Decoding the outputs of a call whose named types are declared and whose outputs are planned
fails only because a slot is missing or does not read: never for a shape or an unknown type. -/
theorem decodeOutputs_error (hc : WellFormed c) {e : String} {outputs : List ResolvedType}
    {plans : List OutputPlan} {slots : List (List UInt8)} {err : OutputError}
    (hd : outputs.forM (checkDeclared c e) = .ok ()) (hp : planOutputs outputs = .ok plans)
    (h : decodeOutputs c e outputs slots = .error err) :
    ∃ idx w, err = .call (.invalidResponse e idx w) ∧ w.isShapeFault = false := by
  rcases bind_eq_error h with hd' | ⟨⟨⟩, -, h⟩
  · rw [hd] at hd'
    cases hd'
  rcases bind_eq_error h with hp' | ⟨plans', hplans, h⟩
  · rw [hp] at hp'
    cases hp'
  rw [hp] at hplans
  cases hplans
  obtain ⟨⟨ty, p⟩, hmem, hdec⟩ := mapM_error h
  exact decodeOutput_error hc (planFrom_select hp ty p hmem)
    (forM_ok hd ty (List.of_mem_zip hmem).1) hdec

end Outputs

end Wire

/-! ## Main statement -/

/-- Strategy selection agrees with both decoders: the generated statement exists, and the
readers behind each strategy fail only on the bytes they read. -/
theorem decoders_agree_with_selection :
    (∀ ty s, DecodeStrategy.select ty = .ok s → ∀ index firstSlot level,
      ∃ code, Binding.outputDecode index ty ⟨s, firstSlot⟩ level = .ok code) ∧
    ∀ c : Catalog, Wire.WellFormed c → ∀ e : String,
      (∀ ty, Shape.checkNested ty = .ok () → Wire.checkDeclared c e ty = .ok () →
        Wire.OnlyDataFaults (Wire.nested c ty)) ∧
      (∀ ty, Shape.checkTopLevel ty = .ok () → Wire.checkDeclared c e ty = .ok () →
        Wire.OnlyDataFaults (Wire.topValue c ty)) ∧
      (∀ n ms, Shape.checkGroupMembers ms = .ok () →
        (∀ m ∈ ms, Wire.checkDeclared c e m = .ok ()) →
        Wire.OnlyDataFaults (Wire.groupValue c n ms)) ∧
      ∀ outputs plans slots err, outputs.forM (Wire.checkDeclared c e) = .ok () →
        planOutputs outputs = .ok plans → Wire.decodeOutputs c e outputs slots = .error err →
        ∃ idx w, err = .call (.invalidResponse e idx w) ∧ w.isShapeFault = false :=
  ⟨fun _ _ hs index firstSlot level => Binding.outputDecode_ok hs index firstSlot level,
    fun _ hc _ => ⟨fun _ hn hd => Wire.nested_dataOnly hc hn hd,
      fun _ ht hd => Wire.topValue_dataOnly hc ht hd,
      fun _ _ hm hd => Wire.groupValue_dataOnly hc hm hd,
      fun _ _ _ _ hd hp h => Wire.decodeOutputs_error hc hd hp h⟩⟩

/-- A catalog with one record: an owner address and a list of byte and big-number pairs. -/
def positionCatalog : Catalog where
  records := [("Position", [⟨"owner", .primitive .address⟩,
    ⟨"amounts", .list (.tuple "ComplexType0" [.primitive .u8, .primitive .bigUint])⟩])]
  composites := [("ComplexType0", compositeFields [.primitive .u8, .primitive .bigUint])]

/-- The outputs of a call returning a count, then positions packed into one slot. -/
def positionOutputs : List ResolvedType := [.primitive .u32, .list (.record "Position")]

theorem positionOutputs_fail_on_slots :
    Wire.WellFormed positionCatalog ∧
      positionOutputs.forM (Wire.checkDeclared positionCatalog "positions") = .ok () ∧
      planOutputs positionOutputs = .ok [⟨.scalar, 0⟩, ⟨.selfTerminating, 1⟩] ∧
      (∃ code, Binding.outputDecode 1 (.list (.record "Position")) ⟨.selfTerminating, 1⟩ 4 =
        .ok code) ∧
      ∀ slots err,
        Wire.decodeOutputs positionCatalog "positions" positionOutputs slots = .error err →
        ∃ idx w, err = .call (.invalidResponse "positions" idx w) ∧ w.isShapeFault = false := by
  have hwf : Wire.WellFormed positionCatalog := by
    intro r hr f hf
    simp only [positionCatalog, List.mem_singleton] at hr
    subst hr
    simp only [List.mem_cons, List.mem_nil_iff, or_false] at hf
    rcases hf with rfl | rfl <;> exact ⟨rfl, fun _ => rfl⟩
  refine ⟨hwf, rfl, rfl, decoders_agree_with_selection.1 _ _ rfl 1 1 4, fun slots err h => ?_⟩
  exact (decoders_agree_with_selection.2 positionCatalog hwf "positions").2.2.2 _ _ slots err
    rfl rfl h

end ContractAbi
