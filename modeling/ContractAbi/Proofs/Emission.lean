import ContractAbi.Binding.Source
import ContractAbi.Proofs.Catalog
import ContractAbi.Proofs.Decoding
import ContractAbi.Proofs.EncoderExpansion

/-!
# Writing bindings cannot fail after analysis

Writing the bindings of a model fails in four places: a field of a record or composite with no
zero value, an enum with no variant to default to, an input with no encoder, and an output with
no generated decoder. Analysis declares every enum a binding uses, each with a variant, and it
plans every readonly endpoint's outputs by the strategies selection picks, for which the
generated decoder exists. An input has no encoder exactly when it reaches a record or tuple on a
cycle of references; analysis registers every tuple with its own members, so such a cycle passes
through a record, and no input reaching a record on a cycle is all writing needs besides. Every
failure of conversion is then a failure of analysis, with the same error.

Main statement: `convert_fails_only_in_analysis`.
-/

namespace ContractAbi

theorem exists_bind_ok {ε α β : Type} {x : Except ε α} {f : α → Except ε β}
    (hx : ∃ a, x = .ok a) (hf : ∀ a, ∃ b, f a = .ok b) : ∃ b, x >>= f = .ok b := by
  obtain ⟨a, rfl⟩ := hx
  exact hf a

namespace Binding

/-- Joining texts succeeds when each text does. -/
theorem joinMapM_ok {α : Type} {f : α → Except ConversionError String} {xs : List α}
    (h : ∀ x ∈ xs, ∃ s, f x = .ok s) : ∃ s, joinMapM f xs = .ok s := by
  unfold joinMapM
  suffices hacc : ∀ acc, ∃ s, xs.foldlM (fun acc x => (acc ++ ·) <$> f x) acc = .ok s from hacc ""
  induction xs with
  | nil => exact fun acc => ⟨acc, rfl⟩
  | cons x xs ih =>
    intro acc
    obtain ⟨s, hs⟩ := h x List.mem_cons_self
    obtain ⟨t, ht⟩ := ih (fun y hy => h y (List.mem_cons_of_mem x hy)) (acc ++ s)
    refine ⟨t, ?_⟩
    rw [List.foldlM_cons, hs]
    exact ht

theorem defaultVariant_ne_none {vs : List Variant} (h : vs ≠ []) :
    ∃ v, defaultVariant vs = some v := by
  obtain ⟨v, vs', rfl⟩ := List.exists_cons_of_ne_nil h
  cases hf : (v :: vs').find? (·.discriminant == 0) with
  | none => exact ⟨v, by simp [defaultVariant, hf]⟩
  | some w => exact ⟨w, by simp [defaultVariant, hf]⟩

/-- A zero value exists for every type but an enum the catalog gives no variant to default to. -/
theorem zeroValue_ok {c : Catalog} {ty : ResolvedType}
    (h : ∀ n, ty = .enum n → ∃ v, defaultVariant ((c.enums.get? n).getD []) = some v) :
    ∃ z, zeroValue c ty = .ok z := by
  cases ty with
  | enum n =>
    obtain ⟨v, hv⟩ := h n rfl
    exact ⟨_, by simp only [zeroValue, hv]; rfl⟩
  | _ => exact ⟨_, rfl⟩

theorem recordItem_ok {fields : List Field} {c : Catalog}
    (h : ∀ f ∈ fields, ∃ z, zeroValue c f.type = .ok z) (name : String) (docs : List String) :
    ∃ s, recordItem name fields docs c = .ok s := by
  unfold recordItem
  refine exists_bind_ok (joinMapM_ok fun f hf => ?_) fun _ => ⟨_, rfl⟩
  exact exists_bind_ok (h f hf) fun _ => ⟨_, rfl⟩

theorem enumItem_ok {variants : List Variant} (h : ∃ v, defaultVariant variants = some v)
    (name : String) (docs : List String) : ∃ s, enumItem name variants docs = .ok s := by
  obtain ⟨v, hv⟩ := h
  simp only [enumItem, hv]
  exact ⟨_, rfl⟩

/-- A readonly endpoint whose every output has its generated decoder under its plan. -/
def Decodable (e : Endpoint) : Prop :=
  ∀ o p, (o, p) ∈ e.outputs.zip e.plans →
    ∀ index level, ∃ code, outputDecode index o.type p level = .ok code

theorem outputDecoders_ok {e : Endpoint} (h : Decodable e) : ∃ s, outputDecoders e = .ok s :=
  joinMapM_ok fun ⟨i, o, p⟩ hx => h o p (List.of_mem_zip hx).2 i 4

theorem argsBlock_ok {c : Catalog} {inputs : List Input}
    (h : ∀ i ∈ inputs, (encode c (paramIdent i.name) i.type 4).isSome) :
    ∃ s, argsBlock c inputs = .ok s := by
  unfold argsBlock
  split
  · exact ⟨_, rfl⟩
  · refine exists_bind_ok (joinMapM_ok fun i hi => ?_) fun _ => ⟨_, rfl⟩
    obtain ⟨s, hs⟩ := Option.isSome_iff_exists.1 (h i hi)
    exact ⟨s, by simp only [inputPushes, hs]⟩

theorem methodItem_ok {e : Endpoint} {c : Catalog}
    (hin : ∀ i ∈ e.inputs, (encode c (paramIdent i.name) i.type 4).isSome)
    (h : e.kind = .readonly → Decodable e) : ∃ s, methodItem e c = .ok s := by
  unfold methodItem
  refine exists_bind_ok (argsBlock_ok hin) fun _ => ?_
  cases hk : e.kind with
  | readonly =>
    dsimp only
    split
    · exact ⟨_, rfl⟩
    · exact exists_bind_ok (outputDecoders_ok (h hk)) fun _ => ⟨_, rfl⟩
  | mutable => exact ⟨_, rfl⟩

theorem declaredItem_ok {o : Options} {m : Model}
    (hr : ∀ e ∈ m.catalog.records, ∀ f ∈ e.2, ∃ z, zeroValue m.catalog f.type = .ok z)
    (he : ∀ e ∈ m.catalog.enums, ∃ v, defaultVariant e.2 = some v) (name : String)
    (docs : List String) : ∃ s, declaredItem o m name docs = .ok s := by
  unfold declaredItem
  cases hrec : m.catalog.records.get? name with
  | some fields =>
    obtain ⟨s, hs⟩ := recordItem_ok (hr _ (OrderedMap.mem_of_get? hrec)) name
      (if o.emitDocs then docs else [])
    exact ⟨_, by simp only [hs]; rfl⟩
  | none =>
    cases henum : m.catalog.enums.get? name with
    | some variants =>
      obtain ⟨s, hs⟩ := enumItem_ok (he _ (OrderedMap.mem_of_get? henum)) name
        (if o.emitDocs then docs else [])
      exact ⟨_, by simp only [hs]; rfl⟩
    | none => exact ⟨_, rfl⟩

end Binding

open Binding Relation

/-- What writing a model's bindings needs: zero values for fields, default variants for enums,
encoders for inputs, and decoders for readonly outputs. -/
structure Model.Emittable (m : Model) : Prop where
  zero_fields : ∀ e ∈ m.catalog.records ++ m.catalog.composites, ∀ f ∈ e.2,
    ∃ z, zeroValue m.catalog f.type = .ok z
  default_variant : ∀ e ∈ m.catalog.enums, ∃ v, defaultVariant e.2 = some v
  encodable : ∀ ep ∈ m.endpoints, ∀ i ∈ ep.inputs,
    (encode m.catalog (paramIdent i.name) i.type 4).isSome
  decodable : ∀ ep ∈ m.endpoints, ep.kind = .readonly → Decodable ep

namespace Model.Emittable

variable {m : Model}

theorem accessor_ok (hm : m.Emittable) (o : Options) : ∃ s, accessor o m = .ok s := by
  unfold accessor
  refine exists_bind_ok (joinMapM_ok fun e he => ?_) fun _ => ⟨_, rfl⟩
  have hdec := hm.decodable e he
  split
  · exact exists_bind_ok (methodItem_ok (hm.encodable e he) hdec) fun _ => ⟨_, rfl⟩
  · exact exists_bind_ok (methodItem_ok (e := { e with docs := [] }) (hm.encodable e he) hdec)
      fun _ => ⟨_, rfl⟩

/-- The bindings of a model that has what writing needs are written. -/
theorem source_ok (hm : m.Emittable) (o : Options) : ∃ text, source o m = .ok text := by
  unfold source
  refine exists_bind_ok (joinMapM_ok fun ⟨n, d⟩ _ => ?_) fun _ => ?_
  · exact declaredItem_ok (fun e he => hm.zero_fields e (List.mem_append_left _ he))
      hm.default_variant n d
  refine exists_bind_ok (joinMapM_ok fun ⟨n, fs⟩ he => ?_) fun _ => ?_
  · exact exists_bind_ok
      (recordItem_ok (hm.zero_fields _ (List.mem_append_right _ he)) n []) fun _ => ⟨_, rfl⟩
  exact exists_bind_ok (hm.accessor_ok o) fun _ => ⟨_, rfl⟩

end Model.Emittable

/-! ## Analysis plans what selection accepts -/

/-- A readonly endpoint's plans are those of its outputs. -/
def Endpoint.Planned (e : Endpoint) : Prop :=
  e.kind = .readonly → planOutputs (e.outputs.map (·.type)) = .ok e.plans

theorem classify_planned {doc : AbiDocument} {e : EndpointDescriptor} {c c' : Context}
    {ep : Endpoint} (h : ((classify doc e).run).run c = (.ok (some ep), c')) : ep.Planned := by
  intro hk
  rcases classify_ok h with ⟨hnone, -⟩ | ⟨ep', c₁, hep, -, -, hout⟩
  · cases hnone
  · cases hep
    rcases hout with ⟨-, -, hplan⟩ | ⟨hmut, -⟩
    · exact hplan
    · rw [hk] at hmut
      cases hmut

theorem Progress.step_planned {doc : AbiDocument} {pol : Policy} {p q : Progress}
    {e : EndpointDescriptor} (hp : ∀ ep ∈ p.endpoints, ep.Planned)
    (h : p.step doc pol e = .ok q) : ∀ ep ∈ q.endpoints, ep.Planned := by
  rcases Progress.step_ok_cases h with ⟨ctx, -, rfl⟩ | ⟨c, names, ctx, hrun, -, rfl⟩ | ⟨err, -, rfl⟩
  · exact hp
  · intro ep hep
    rcases List.mem_append.1 hep with hep | hep
    · exact hp ep hep
    · rw [List.mem_singleton.1 hep]
      exact classify_planned hrun
  · exact hp

/-- The outputs of a planned readonly endpoint have their generated decoders. -/
theorem Endpoint.Planned.decodable {e : Endpoint} (he : e.Planned) (hk : e.kind = .readonly) :
    Decodable e := by
  intro o p hop index level
  have hmem : (o.type, p) ∈ (e.outputs.map (·.type)).zip e.plans := by
    rw [List.zip_map_left]
    exact List.mem_map_of_mem (f := Prod.map (·.type) id) hop
  exact outputDecode_ok (planFrom_select (he hk) o.type p hmem) index p.firstSlot level

/-! ## Inputs with encoders -/

/-- No input of an endpoint reaches a record that lies on a cycle of record references. -/
def Model.InputsAcyclic (m : Model) : Prop :=
  ∀ e ∈ m.endpoints, ∀ i ∈ e.inputs, ∀ n,
    ReflTransGen (Catalog.Refers m.catalog) i.type (.record n) →
      ¬ TransGen (Catalog.Refers m.catalog) (.record n) (.record n)

namespace Catalog

variable {c : Catalog} {t t' x : ResolvedType}

/-- A tuple whose entry lists its own members refers to them, which are shallower. -/
theorem Refers.depth_lt_of_entry {n : String} {ms : List ResolvedType}
    (h : Refers c (.tuple n ms) x) (hentry : c.composites.get? n = some (compositeFields ms)) :
    x.depth < (ResolvedType.tuple n ms).depth := by
  obtain ⟨fs, f, hfs, hf, rfl⟩ := h.of_recordLike rfl
  have hfs' : fs = compositeFields ms := Option.some.inj (hfs.symm.trans hentry)
  have hmem : f.type ∈ ms := by
    rw [← compositeFields_types ms, ← hfs']
    exact List.mem_map_of_mem hf
  have := Wire.depth_le_depthList hmem
  simp only [ResolvedType.depth]
  omega

theorem Refers.record_or_depth_lt (hx : Refers c t x)
    (hentry : ∀ n ms, t = .tuple n ms → c.composites.get? n = some (compositeFields ms)) :
    (∃ n, t = .record n) ∨ x.depth < t.depth := by
  cases t with
  | record n => exact .inl ⟨n, rfl⟩
  | tuple n ms => exact .inr (hx.depth_lt_of_entry (hentry n ms rfl))
  | _ => exact .inr (hx.depth_lt rfl)

/-- Where every tuple reached lists its own members as its entry, a path ends shallower than it
starts or passes through a record. -/
theorem exists_record_of_refers
    (hentry : ∀ n ms, ReflTransGen (Refers c) t (.tuple n ms) →
      c.composites.get? n = some (compositeFields ms))
    (h : TransGen (Refers c) t t') :
    t'.depth < t.depth ∨
      ∃ n, ReflTransGen (Refers c) t (.record n) ∧ TransGen (Refers c) (.record n) t' := by
  induction h using TransGen.head_induction_on with
  | single hx =>
    rcases hx.record_or_depth_lt (fun n ms heq => hentry n ms (heq ▸ .refl)) with ⟨n, rfl⟩ | hlt
    · exact .inr ⟨n, .refl, .single hx⟩
    · exact .inl hlt
  | head hx hrest ih =>
    rcases hx.record_or_depth_lt (fun n ms heq => hentry n ms (heq ▸ .refl)) with ⟨n, rfl⟩ | hlt
    · exact .inr ⟨n, .refl, .head hx hrest⟩
    · rcases ih (fun n ms hreach => hentry n ms (.head hx hreach)) with hlt' | ⟨n, hu, hn⟩
      · exact .inl (hlt'.trans hlt)
      · exact .inr ⟨n, .head hx hu, hn⟩

end Catalog

/-- What a used type refers to is used: the fields of records and composites are used types, and
the other references lead to parts. -/
theorem Catalog.Refers.mentions {m : Model} {t x : ResolvedType} (ht : Mentions m.usedTypes t)
    (hx : Catalog.Refers m.catalog t x) : Mentions m.usedTypes x := by
  rcases Catalog.refers_iff.1 hx with ⟨-, fs, f, hfs, hf, rfl⟩ | ⟨-, hpart⟩
  · cases t with
    | record n => exact mentions_of_mem (Model.mem_usedTypes_of_field
        (List.mem_append_left _ (OrderedMap.mem_of_get? hfs)) hf)
    | tuple n ms => exact mentions_of_mem (Model.mem_usedTypes_of_field
        (List.mem_append_right _ (OrderedMap.mem_of_get? hfs)) hf)
    | _ => simp [Catalog.fieldsOf?] at hfs
  · exact ht.of_occurs (.part hpart .refl)

theorem Model.mentions_of_reach {m : Model} {t u : ResolvedType} (ht : Mentions m.usedTypes t)
    (h : ReflTransGen (Catalog.Refers m.catalog) t u) : Mentions m.usedTypes u := by
  induction h with
  | refl => exact ht
  | tail _ hx ih => exact Catalog.Refers.mentions ih hx

/-- After analysis an input that reaches no record on a cycle has an encoder: every tuple it
reaches is registered with its own members, so any cycle it reaches passes through a record. -/
theorem analyze_encodable {d : AbiDocument} {pol : Policy} {m : Model} (hd : d.types.keys.Nodup)
    (h : analyze d pol = .ok m) (hacyc : m.InputsAcyclic) :
    ∀ e ∈ m.endpoints, ∀ i ∈ e.inputs, ∀ expr level, (encode m.catalog expr i.type level).isSome := by
  obtain ⟨decls, ctx, p, -, rfl, -, hC⟩ := analyze_closed hd h
  intro e he i hi expr level
  have hused := mentions_of_mem (Model.mem_usedTypes_of_input he hi)
  refine Binding.encode_isSome expr level fun u hu _ hcyc => ?_
  have hentry : ∀ n ms, ReflTransGen (Catalog.Refers _) u (.tuple n ms) →
      (p.model d decls).catalog.composites.get? n = some (compositeFields ms) := fun n ms hr =>
    OrderedMap.get?_eq_some_of_mem hC.keys_nodup
      (hC.registered _ n ms (Model.mentions_of_reach hused (hu.trans hr)) rfl)
  rcases Catalog.exists_record_of_refers hentry hcyc with hlt | ⟨n, hun, hnu⟩
  · exact Nat.lt_irrefl _ hlt
  · exact hacyc e he i hi n (hu.trans hun) (hnu.trans_left hun)

/-- Whether the type of every input of a model has an encoder. -/
def Model.inputsEncode (m : Model) : Bool :=
  m.endpoints.all fun e => e.inputs.all fun i => (encode m.catalog "arg" i.type 0).isSome

theorem Model.inputsAcyclic_of_inputsEncode {m : Model} (h : m.inputsEncode = true) :
    m.InputsAcyclic := by
  unfold Model.InputsAcyclic
  intro e he i hi n hn hcyc
  simp only [Model.inputsEncode, List.all_eq_true] at h
  exact (Binding.encodeWith_acyclic (h e he i hi) (.record n) hn rfl).2 hcyc

/-! ## Main statement -/

/-- What analysis produces has what writing its bindings needs, when no input reaches a record on
a cycle of record references. -/
theorem analyze_emittable {d : AbiDocument} {pol : Policy} {m : Model}
    (hd : d.types.keys.Nodup) (h : analyze d pol = .ok m) (hacyc : m.InputsAcyclic) :
    m.Emittable := by
  have hencode := analyze_encodable hd h hacyc
  obtain ⟨decls, ctx, p, hrun, rfl, hD, hC⟩ := analyze_closed hd h
  have hdefault : ∀ e ∈ decls.enums, ∃ v, defaultVariant e.2 = some v :=
    fun e he => defaultVariant_ne_none (hD.enums_nonempty e he)
  refine ⟨fun e he f hf => zeroValue_ok fun n hn => ?_, hdefault,
    fun e he i hi => hencode e he i hi _ _, fun ep hep hk => ?_⟩
  · have hused := Model.mem_usedTypes_of_field he hf
    obtain ⟨ds, vs, hget⟩ := hC.enum_declared n (hn ▸ mentions_of_mem hused)
    obtain ⟨vs', hvs'⟩ :=
      OrderedMap.exists_get?_of_contains (OrderedMap.contains_iff.2 (hD.mem_enums_keys hget))
    obtain ⟨v, hv⟩ := hdefault _ (OrderedMap.mem_of_get? hvs')
    exact ⟨v, by simpa [Declarations.catalog, hvs'] using hv⟩
  · have hplanned : ∀ ep ∈ p.endpoints, ep.Planned :=
      Progress.foldlM_inv (fun q => ∀ ep ∈ q.endpoints, ep.Planned) Progress.step_planned
        (fun _ he => by cases he) hrun
    exact (hplanned ep hep).decodable hk

/-- Writing bindings cannot fail after analysis when no input reaches a record on a cycle:
conversion fails exactly when analysis does, with the same error. -/
theorem convert_fails_only_in_analysis (d : AbiDocument) (pol : Policy) (o : Options)
    (hd : d.types.keys.Nodup) (hacyclic : ∀ m, analyze d pol = .ok m → m.InputsAcyclic) :
    (∀ m, analyze d pol = .ok m → m.Emittable ∧ ∃ text, source o m = .ok text) ∧
      ∀ err, convert d pol o = .error err ↔ analyze d pol = .error err := by
  have hemit : ∀ m, analyze d pol = .ok m → m.Emittable ∧ ∃ text, source o m = .ok text :=
    fun m h =>
      ⟨analyze_emittable hd h (hacyclic m h), (analyze_emittable hd h (hacyclic m h)).source_ok o⟩
  refine ⟨hemit, fun err => ⟨fun h => ?_, fun h => ?_⟩⟩
  · rcases bind_eq_error h with ha | ⟨m, ha, hs⟩
    · exact ha
    obtain ⟨-, text, htext⟩ := hemit m ha
    rcases bind_eq_error hs with hs' | ⟨t, -, hpure⟩
    · rw [htext] at hs'
      cases hs'
    · cases hpure
  · unfold convert
    rw [h]
    rfl

/-- A readonly endpoint returning a count, positions packed into one slot, and pairs of a side
and an amount, one pair per group of slots. -/
def vaultPositions : EndpointDescriptor where
  name := "positions"
  mutability := .readonly
  outputs := [{ typeExpr := "u32" }, { typeExpr := "List<Position>" },
    { typeExpr := "variadic<multi<Side,BigUint>>" }]

/-- A mutable endpoint taking a side and an amount in a tuple. -/
def vaultOpen : EndpointDescriptor where
  name := "open"
  inputs := [{ name := "order", typeExpr := "tuple<Side,u64>" }]

/-- A contract with a struct holding an enum whose variants leave out discriminant 0. -/
def vaultContract : AbiDocument where
  buildInfo := { framework := { name := "multiversx-sc" } }
  name := "Vault"
  types := [("Position", .struct [] [⟨"owner", "Address"⟩, ⟨"side", "Side"⟩]),
    ("Side", .enum [] [⟨"Long", 1⟩, ⟨"Short", 2⟩])]
  endpoints := [vaultPositions, vaultOpen]

theorem vaultContract_converts :
    vaultContract.types.keys.Nodup ∧
      (∀ m, analyze vaultContract .strict = .ok m → m.InputsAcyclic) ∧
      ∃ m, analyze vaultContract .strict = .ok m ∧ m.Emittable ∧ ∃ text, source {} m = .ok text := by
  have hd : vaultContract.types.keys.Nodup := by decide
  have hok : (match analyze vaultContract .strict with
      | .ok m => m.inputsEncode
      | .error _ => false) = true := by decide +kernel
  have hacyclic : ∀ m, analyze vaultContract .strict = .ok m → m.InputsAcyclic := by
    intro m hm
    rw [hm] at hok
    exact Model.inputsAcyclic_of_inputsEncode hok
  obtain ⟨hemit, -⟩ := convert_fails_only_in_analysis vaultContract .strict {} hd hacyclic
  refine ⟨hd, hacyclic, ?_⟩
  cases ha : analyze vaultContract .strict with
  | error e =>
    rw [ha] at hok
    cases hok
  | ok m => exact ⟨m, rfl, hemit m ha⟩

end ContractAbi
