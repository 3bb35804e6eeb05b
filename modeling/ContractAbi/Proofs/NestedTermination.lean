import ContractAbi.Proofs.SettledReads
import ContractAbi.Proofs.NestedRoundTrip

/-!
# Nested reading ends when every cycle passes through a list

A record may refer to itself through its fields, and nested reading follows such references
through the catalog rather than down a finite type. Reading still ends when every cycle of
references passes through a list (`Catalog.ListGuarded`): a list spends its four-byte count
before it reads any item, so between two lists the reading enters each record at most once, and
along one line of descent it meets no more lists than the bytes hold counts.

The argument is a budget that every step of descent lowers (`readBudget`): the bytes left, each
worth a whole stretch between two lists, then the rank of the current type below the next list,
which counts the records not entered since the last list and the depth of the type. A step into
a field or a tuple member keeps the bytes and lowers the rank (`Readable.descend`); a step into a
list's items spends four bytes and starts a new stretch (`Readable.item`), whose rank is below
what one byte is worth (`Readable.rank_lt`, `readBudget_lt`). The fuel `nested` gives itself is
above the budget, so it never runs out, and by `nestedValue_extends` more fuel would answer the
same.

Main statement: `nested_reading_ends_when_lists_guard_cycles`.
-/

namespace ContractAbi

open Relation

namespace Catalog

/-- Every cycle of references passes through a list: no record lies inside itself
(`Wire.Inside`). -/
def ListGuarded (c : Catalog) : Prop :=
  ∀ n, ¬ TransGen (Wire.Inside c) (.record n) (.record n)

/-- Only records and tuples have types inside them. -/
theorem isRecordLike_of_inside {c : Catalog} {t x : ResolvedType} (h : Wire.Inside c t x) :
    t.isRecordLike = true := by
  cases h <;> rfl

/-- A step inside a type is into a field of a record, or into a shallower member of a tuple. -/
theorem inside_cases {c : Catalog} {t x : ResolvedType} (h : Wire.Inside c t x) :
    (∃ n, t = .record n) ∨ x.depth < t.depth := by
  cases h with
  | field => exact .inl ⟨_, rfl⟩
  | member hm =>
    have := Wire.depth_le_depthList hm
    exact .inr (by simp only [ResolvedType.depth]; omega)

/-- A path inside a type ends shallower than it starts, or passes through a record. -/
theorem exists_record_of_transGen {c : Catalog} {t t' : ResolvedType}
    (h : TransGen (Wire.Inside c) t t') :
    t'.depth < t.depth ∨
      ∃ n, ReflTransGen (Wire.Inside c) t (.record n) ∧ TransGen (Wire.Inside c) (.record n) t' := by
  induction h using TransGen.head_induction_on with
  | single hx =>
    rcases inside_cases hx with ⟨n, rfl⟩ | hlt
    · exact .inr ⟨n, .refl, .single hx⟩
    · exact .inl hlt
  | head hx hrest ih =>
    rcases inside_cases hx with ⟨n, rfl⟩ | hlt
    · exact .inr ⟨n, .refl, .head hx hrest⟩
    · rcases ih with hlt' | ⟨n, hu, hn⟩
      · exact .inl (hlt'.trans hlt)
      · exact .inr ⟨n, .head hx hu, hn⟩

/-- List-guarded catalogs have no cycle of references that avoids lists at all: a cycle through
tuples alone would end shallower than it starts. -/
theorem listGuarded_iff {c : Catalog} :
    c.ListGuarded ↔ ∀ t, ¬ TransGen (Wire.Inside c) t t := by
  refine ⟨fun hc t hcyc => ?_, fun h n => h _⟩
  rcases exists_record_of_transGen hcyc with hlt | ⟨n, htn, hnt⟩
  · exact Nat.lt_irrefl _ hlt
  · exact hc n (hnt.trans_left htn)

/-- A catalog whose record fields are neither records nor tuples is list-guarded: nothing lies
inside the type of a field, so no record lies inside another. -/
theorem listGuarded_of_fields {c : Catalog}
    (h : ∀ e ∈ c.records, ∀ f ∈ e.2, f.type.isRecordLike = false) : c.ListGuarded := by
  intro n hcyc
  obtain ⟨x, hx, hback⟩ := TransGen.head'_iff.1 hcyc
  cases hx with
  | field hfs hf =>
    have hleaf := h _ (OrderedMap.mem_of_get? hfs) _ hf
    rcases ReflTransGen.cases_head hback with heq | ⟨y, hy, -⟩
    · simp [heq, ResolvedType.isRecordLike] at hleaf
    · simp [isRecordLike_of_inside hy] at hleaf

end Catalog

namespace Wire

/-! ## The budget of a descent -/

section Budget

variable {c : Catalog} {D : Nat} {V : List String} {ty x : ResolvedType}

/-- Where nested reading stands: the records `entered` since the last list are distinct and
declared, `ty` lies inside each, and is no deeper than `D`. -/
structure Readable (c : Catalog) (D : Nat) (entered : List String) (ty : ResolvedType) :
    Prop where
  nodup : entered.Nodup
  declared : ∀ r ∈ entered, r ∈ c.records.keys
  inside : ∀ r ∈ entered, TransGen (Inside c) (.record r) ty
  depth_le : ty.depth ≤ D

/-- The rank of `ty` below the next list: one catalog depth for each record not entered since
the last list, and the depth of `ty`. -/
def rankBelowList (c : Catalog) (D : Nat) (entered : List String) (ty : ResolvedType) : Nat :=
  (c.records.length - entered.length) * (D + 1) + ty.depth

/-- How far nested reading of `ty` may still descend from `length` bytes: the bytes, each worth a
whole stretch between two lists, then the rank of `ty` below the next list. -/
def readBudget (c : Catalog) (D : Nat) (entered : List String) (ty : ResolvedType)
    (length : Nat) : Nat :=
  length * ((c.records.length + 1) * (D + 1)) + rankBelowList c D entered ty

theorem Readable.start (hty : ty.depth ≤ D) : Readable c D [] ty :=
  ⟨List.nodup_nil, by simp, by simp, hty⟩

/-- A rank stays below what one byte is worth. -/
theorem Readable.rank_lt (h : Readable c D V ty) :
    rankBelowList c D V ty < (c.records.length + 1) * (D + 1) := by
  have hentered : (c.records.length - V.length) * (D + 1) ≤ c.records.length * (D + 1) :=
    Nat.mul_le_mul_right _ (Nat.sub_le _ _)
  have hspan : (c.records.length + 1) * (D + 1) = c.records.length * (D + 1) + (D + 1) :=
    Nat.succ_mul _ _
  have := h.depth_le
  simp only [rankBelowList]
  omega

/-- The budget falls with the bytes, whatever the rank, or with the rank on the same bytes. -/
theorem readBudget_lt {V' : List String} {ty' : ResolvedType} {L L' : Nat}
    (hrank : rankBelowList c D V' ty' < (c.records.length + 1) * (D + 1))
    (h : L' < L ∨ L' = L ∧ rankBelowList c D V' ty' < rankBelowList c D V ty) :
    readBudget c D V' ty' L' < readBudget c D V ty L := by
  unfold readBudget
  rcases h with hL | ⟨rfl, hlt⟩
  · have hbytes := Nat.mul_le_mul_right ((c.records.length + 1) * (D + 1)) (Nat.succ_le_of_lt hL)
    rw [Nat.succ_mul] at hbytes
    omega
  · omega

/-- Entering a record: it was not entered since the last list, or it would lie inside itself, so
one record fewer is left to enter, and the type of its field is no deeper than the catalog. -/
theorem Readable.field {n : String} {fs : List Field} {f : Field} (hc : c.ListGuarded)
    (hD : c.depth ≤ D) (h : Readable c D V (.record n)) (hfs : c.records.get? n = some fs)
    (hf : f ∈ fs) :
    Readable c D (n :: V) f.type ∧
      rankBelowList c D (n :: V) f.type < rankBelowList c D V (.record n) := by
  have hnew : n ∉ V := fun hn => hc n (h.inside n hn)
  have hdeclared : ∀ r ∈ n :: V, r ∈ c.records.keys := by
    intro r hr
    rcases List.mem_cons.1 hr with rfl | hr
    · exact List.mem_map_of_mem (OrderedMap.mem_of_get? hfs)
    · exact h.declared r hr
  have hnodup : (n :: V).Nodup := List.nodup_cons.2 ⟨hnew, h.nodup⟩
  have hroom : V.length + 1 ≤ c.records.length := by
    simpa [OrderedMap.keys] using hnodup.length_le_of_subset hdeclared
  have hfD : f.type.depth ≤ D := Nat.le_trans (depth_le_of_field hfs hf) hD
  refine ⟨⟨hnodup, hdeclared, fun r hr => ?_, hfD⟩, ?_⟩
  · rcases List.mem_cons.1 hr with rfl | hr
    · exact .single (.field hfs hf)
    · exact (h.inside r hr).tail (.field hfs hf)
  · have hsplit : (c.records.length - V.length) * (D + 1) =
        (c.records.length - (V.length + 1)) * (D + 1) + (D + 1) := by
      rw [show c.records.length - V.length = c.records.length - (V.length + 1) + 1 by omega,
        Nat.succ_mul]
    simp only [rankBelowList, List.length_cons, ResolvedType.depth]
    omega

/-- Entering a tuple member: the same records are entered, and the member is shallower. -/
theorem Readable.member {n : String} {ms : List ResolvedType} {m : ResolvedType}
    (h : Readable c D V (.tuple n ms)) (hm : m ∈ ms) :
    Readable c D V m ∧ rankBelowList c D V m < rankBelowList c D V (.tuple n ms) := by
  have hlt : m.depth < (ResolvedType.tuple n ms).depth := by
    have := depth_le_depthList hm
    simp only [ResolvedType.depth]
    omega
  have hD := h.depth_le
  refine ⟨⟨h.nodup, h.declared, fun r hr => (h.inside r hr).tail (.member hm), by omega⟩, ?_⟩
  simp only [rankBelowList]
  omega

/-- Every step into a type inside the current one lowers the rank. -/
theorem Readable.descend (hc : c.ListGuarded) (hD : c.depth ≤ D) (h : Readable c D V ty)
    (hx : Inside c ty x) :
    ∃ V', Readable c D V' x ∧ rankBelowList c D V' x < rankBelowList c D V ty := by
  cases hx with
  | field hfs hf => exact ⟨_, h.field hc hD hfs hf⟩
  | member hm => exact ⟨_, h.member hm⟩

/-- Entering a list's items starts a new stretch, with no record entered. -/
theorem Readable.item {i : ResolvedType} (h : Readable c D V (.list i)) : Readable c D [] i := by
  have hi : i.depth + 1 ≤ D := by simpa [ResolvedType.depth] using h.depth_le
  exact Readable.start (by omega)

end Budget

/-! ## Reading within the budget settles -/

section Termination

open Reader.SettlesWithin

variable {c : Catalog}

/-- One level of nested reading settles when the readings of the types inside the current one
settle on the same bytes, and the items of a list on the bytes after its count. -/
theorem nestedValue_succ_settles {fuel L : Nat} {ty : ResolvedType}
    (hinside : ∀ x, Inside c ty x → (nestedValue c fuel x).SettlesWithin L)
    (hitem : ∀ i, ty = .list i → 4 ≤ L → (nestedValue c fuel i).SettlesWithin (L - 4)) :
    (nestedValue c (fuel + 1) ty).SettlesWithin L := by
  cases ty with
  | primitive p => exact nestedPrimitive_settles p
  | enum n =>
    refine bind (readFixed_settles 1) (readFixed_forward 1) fun d => of_settled fun bs => ?_
    exact settled_map.2 (enumValue_settled c n d)
  | record n =>
    simp only [nestedValue]
    split
    · exact fail (by simp)
    · rename_i fs hfs
      refine map _ (readNamed_settles fun it hit => ?_)
      obtain ⟨f, hf, rfl⟩ := List.mem_map.1 hit
      exact ⟨nestedValue_forward c fuel f.type, hinside _ (.field hfs hf)⟩
  | tuple n ms =>
    refine map _ (readNamed_settles fun it hit => ?_)
    obtain ⟨⟨k, m⟩, hkm, rfl⟩ := List.mem_map.1 hit
    exact ⟨nestedValue_forward c fuel m, hinside _ (.member (mem_numbered hkm))⟩
  | list i => exact map _ (readList_settles (nestedValue_forward c fuel i) (hitem i rfl))
  | variadic | multiVariadic | multi => exact fail (by simp)

/-- Nested reading within its budget never runs out of fuel. -/
theorem nestedValue_settles {D : Nat} (hc : c.ListGuarded) (hD : c.depth ≤ D) :
    ∀ {fuel L : Nat} {V : List String} {ty : ResolvedType}, Readable c D V ty →
      readBudget c D V ty L < fuel → (nestedValue c fuel ty).SettlesWithin L
  | 0, _, _, _, _, hfuel => absurd hfuel (Nat.not_lt_zero _)
  | fuel + 1, L, V, ty, h, hfuel => by
    refine nestedValue_succ_settles (fun x hx => ?_) (fun i hi hL => ?_)
    · obtain ⟨V', h', hlt⟩ := h.descend hc hD hx
      have hlower : readBudget c D V' x L < readBudget c D V ty L :=
        readBudget_lt h'.rank_lt (.inr ⟨rfl, hlt⟩)
      exact nestedValue_settles hc hD h' (by omega)
    · subst hi
      have h' := h.item
      have hlower : readBudget c D [] i (L - 4) < readBudget c D V (.list i) L :=
        readBudget_lt h'.rank_lt (.inl (by omega))
      exact nestedValue_settles hc hD h' (by omega)

/-- With no record entered, the budget is below the fuel `nested` gives itself. -/
theorem readBudget_lt_nestedFuel (ty : ResolvedType) (L : Nat) :
    readBudget c (ty.depth + c.depth) [] ty L < nestedFuel c ty L := by
  have hrank := (Readable.start (c := c) (Nat.le_add_right ty.depth c.depth)).rank_lt
  have hentries : (c.records.length + 1) * (ty.depth + c.depth + 1) ≤
      (c.entryCount + 1) * (ty.depth + c.depth + 1) :=
    Nat.mul_le_mul_right _ (by simp [Catalog.entryCount])
  have hbytes := Nat.mul_le_mul_left L hentries
  have hfuel : (L + 1) * ((c.entryCount + 1) * (ty.depth + c.depth + 1)) =
      L * ((c.entryCount + 1) * (ty.depth + c.depth + 1)) +
        (c.entryCount + 1) * (ty.depth + c.depth + 1) := Nat.succ_mul _ _
  unfold readBudget nestedFuel
  omega

theorem nestedValue_nestedFuel_settled (hc : c.ListGuarded) (ty : ResolvedType)
    (bs : List UInt8) : Settled (nestedValue c (nestedFuel c ty bs.length) ty bs) :=
  nestedValue_settles hc (Nat.le_add_left _ _) (Readable.start (Nat.le_add_right _ _))
    (readBudget_lt_nestedFuel ty bs.length) bs le_rfl

/-- Over a list-guarded catalog nested reading never runs out of fuel. -/
theorem nested_settled (hc : c.ListGuarded) (ty : ResolvedType) (bs : List UInt8) :
    Settled (nested c ty bs) := by
  rw [nested_eq_nestedValue]
  exact nestedValue_nestedFuel_settled hc ty bs

/-- Over a list-guarded catalog every fuel from the one `nested` gives itself answers alike. -/
theorem nestedValue_eq_nested (hc : c.ListGuarded) {ty : ResolvedType} {bs : List UInt8}
    {fuel : Nat} (h : nestedFuel c ty bs.length ≤ fuel) : nestedValue c fuel ty bs = nested c ty bs := by
  rw [nested_eq_nestedValue]
  exact nestedValue_extends c h ty bs (nestedValue_nestedFuel_settled hc ty bs)

end Termination

/-! ## The output decoder's readings end -/

section Outputs

variable {c : Catalog}

theorem topValue_settled (hc : c.ListGuarded) (ty : ResolvedType) (slot : List UInt8) :
    Settled (topValue c ty slot) := by
  cases ty with
  | primitive p => exact topPrimitive_settled p slot
  | enum n =>
    exact Settled.bind (settled_map.2 (topUnsigned_settled 1 "u8" slot)) (enumValue_settled c n)
  | record n => exact settled_map.2 (nested_settled hc _ slot)
  | tuple n ms => exact settled_map.2 (nested_settled hc _ slot)
  | list | variadic | multiVariadic | multi => simp [topValue]

theorem memberValue_settled (hc : c.ListGuarded) (m : ResolvedType) (slot : List UInt8) :
    Settled (memberValue c m slot) := by
  unfold memberValue
  split
  · split
    · exact settled_ok _
    · exact topValue_settled hc _ slot
  · exact topValue_settled hc _ slot

theorem groupValue_settled (hc : c.ListGuarded) (n : String) (ms : List ResolvedType)
    (group : List (List UInt8)) : Settled (groupValue c n ms group) := by
  intro shape h
  rcases bind_eq_error h with hfold | ⟨values, -, hpure⟩
  · obtain ⟨acc, ⟨k, m, slot⟩, -, hstep⟩ := foldlM_error hfold
    rcases bind_eq_error hstep with hv | ⟨v, -, hpure⟩
    · exact memberValue_settled hc m slot shape hv
    · cases hpure
  · cases hpure

mutual

/-- The declaration check fails only on an unknown type. -/
theorem checkDeclared_error {e : String} {err : OutputError} :
    ∀ {ty : ResolvedType}, checkDeclared c e ty = .error err → ∃ t, err = .unknownType e t
  | .primitive _, h => by cases h
  | .record n, h | .enum n, h => by
    unfold checkDeclared at h
    split at h
    · cases h
    · cases h
      exact ⟨n, rfl⟩
  | .list i, h | .variadic i, h => by
    unfold checkDeclared at h
    exact checkDeclared_error h
  | .tuple n ms, h => by
    unfold checkDeclared at h
    split at h
    · exact checkMembers_error h
    · cases h
      exact ⟨n, rfl⟩
  | .multiVariadic _ ms, h | .multi _ ms, h => by
    unfold checkDeclared at h
    exact checkMembers_error h

theorem checkMembers_error {e : String} {err : OutputError} :
    ∀ {ms : List ResolvedType}, checkDeclared.checkMembers c e ms = .error err →
      ∃ t, err = .unknownType e t
  | [], h => by cases h
  | m :: ms, h => by
    unfold checkDeclared.checkMembers at h
    rcases bind_eq_error h with hm | ⟨⟨⟩, -, hms⟩
    · exact checkDeclared_error hm
    · exact checkMembers_error hms

end

variable {α : Type} {d : Slots} {e' : String} {idx : Nat} {w : WireError}

theorem Slots.scalar_settled {index : Nat} {decode : List UInt8 → Except WireError α}
    (hdec : ∀ slot, Settled (decode slot))
    (h : d.scalar index decode = .error (.invalidResponse e' idx w)) :
    ∀ shape, w ≠ .unbounded shape := by
  rcases bind_eq_error h with hget | ⟨slot, -, hread⟩
  · unfold Slots.get at hget
    split at hget <;> cases hget
    simp
  · obtain ⟨w', hw', hw⟩ := mapError_eq_error hread
    injection hw with _ _ hww
    simpa [hww, hw'] using hdec slot

theorem Slots.group_settled {start width : Nat} {decode : List (List UInt8) → Except WireError α}
    (hdec : ∀ group, Settled (decode group))
    (h : d.group start width decode = .error (.invalidResponse e' idx w)) :
    ∀ shape, w ≠ .unbounded shape := by
  unfold Slots.group at h
  by_cases hshort : d.slots.length < start + width
  · rw [if_pos hshort] at h
    cases h
    simp
  · rw [if_neg hshort] at h
    obtain ⟨w', hw', hw⟩ := mapError_eq_error h
    injection hw with _ _ hww
    simpa [hww, hw'] using hdec ((d.slots.drop start).take width)

theorem decodeOutput_settled (hc : c.ListGuarded) {ty : ResolvedType} {p : OutputPlan}
    (h : decodeOutput c d ty p = .error (.call (.invalidResponse e' idx w))) :
    ∀ shape, w ≠ .unbounded shape := by
  unfold decodeOutput at h
  split at h
  · obtain ⟨ce, hce, hcall⟩ := mapError_eq_error h
    cases hcall
    exact Slots.scalar_settled (topValue_settled hc _) hce
  · cases h
  · cases h
  · cases h
  · cases h
  · obtain ⟨ce, hce, hcall⟩ := mapError_eq_error h
    cases hcall
    exact Slots.group_settled (groupValue_settled hc _ _) hce
  · cases h

/-- Decoding the outputs of a call never fails for lack of fuel: the declaration check and the
plan fail otherwise, and every slot is read by a reading that settles. -/
theorem decodeOutputs_settled (hc : c.ListGuarded) {e : String} {outputs : List ResolvedType}
    {slots : List (List UInt8)}
    (h : decodeOutputs c e outputs slots = .error (.call (.invalidResponse e' idx w))) :
    ∀ shape, w ≠ .unbounded shape := by
  rcases bind_eq_error h with hd | ⟨⟨⟩, -, h⟩
  · obtain ⟨ty, -, hty⟩ := forM_error hd
    obtain ⟨t, ht⟩ := checkDeclared_error hty
    cases ht
  rcases bind_eq_error h with hp | ⟨plans, -, h⟩
  · obtain ⟨se, -, hse⟩ := mapError_eq_error hp
    cases hse
  obtain ⟨⟨ty, p⟩, -, hdec⟩ := mapM_error h
  exact decodeOutput_settled hc hdec

end Outputs

end Wire

/-! ## Main statement -/

/-- Nested reading ends when every cycle of references passes through a list: its fuel never
runs out, so every reading the output decoder makes ends. -/
theorem nested_reading_ends_when_lists_guard_cycles {c : Catalog} (hc : c.ListGuarded) :
    (∀ ty bs, Wire.Settled (Wire.nested c ty bs) ∧
      ∀ fuel, Wire.nestedFuel c ty bs.length ≤ fuel →
        Wire.nestedValue c fuel ty bs = Wire.nested c ty bs) ∧
    (∀ ty slot, Wire.Settled (Wire.topValue c ty slot)) ∧
    (∀ n ms group, Wire.Settled (Wire.groupValue c n ms group)) ∧
    ∀ e outputs slots e' idx shape, Wire.decodeOutputs c e outputs slots ≠
      .error (.call (.invalidResponse e' idx (.unbounded shape))) :=
  ⟨fun ty bs => ⟨Wire.nested_settled hc ty bs, fun _ h => Wire.nestedValue_eq_nested hc h⟩,
    Wire.topValue_settled hc, Wire.groupValue_settled hc,
    fun _ _ _ _ _ shape h => Wire.decodeOutputs_settled hc h shape rfl⟩

/-- A record with no list between it and itself has no finite reading: the fuel runs out even on
no bytes at all. -/
example : Wire.nested ⟨[("Loop", [⟨"next", .record "Loop"⟩])], [], []⟩ (.record "Loop") [] =
    .error (.unbounded "Loop") := by
  rfl

/-- A tree of nodes, each with a number and a list of child nodes. -/
def treeCatalog : Catalog where
  records := [("Node", [⟨"value", .primitive .u32⟩, ⟨"children", .list (.record "Node")⟩])]

theorem treeCatalog_readings_end :
    treeCatalog.ListGuarded ∧
    (∀ ty bs, Wire.Settled (Wire.nested treeCatalog ty bs) ∧
      ∀ fuel, Wire.nestedFuel treeCatalog ty bs.length ≤ fuel →
        Wire.nestedValue treeCatalog fuel ty bs = Wire.nested treeCatalog ty bs) ∧
    (∀ ty slot, Wire.Settled (Wire.topValue treeCatalog ty slot)) ∧
    (∀ n ms group, Wire.Settled (Wire.groupValue treeCatalog n ms group)) ∧
    ∀ e outputs slots e' idx shape, Wire.decodeOutputs treeCatalog e outputs slots ≠
      .error (.call (.invalidResponse e' idx (.unbounded shape))) :=
  have hc : treeCatalog.ListGuarded := Catalog.listGuarded_of_fields (by decide)
  ⟨hc, nested_reading_ends_when_lists_guard_cycles hc⟩

end ContractAbi
