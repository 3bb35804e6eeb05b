import Mathlib
import ContractAbi.Binding.Source
import ContractAbi.Proofs.Catalog

/-!
# Names of generated items

A bindings file brings names into two namespaces of its module. Into its types: the runtime module
and imports, the aliases, the declared types, the composites, the output structs and the
accessor. Into the accessor's methods: `new`, `transport`, `contract_address` and one method per
endpoint.

Analysis keeps apart the names it makes up. Endpoint methods are claimed one by one and never
take an accessor method's name; composites take fresh synthetic names `ComplexType{i}`, apart
from every declared type's identifier; output structs are claimed against the declared types and
each other; the accessor steps aside from all of these by a `Client` suffix. The names it takes
from the document are not checked: a declared type may share its identifier with a runtime import,
an alias or another declared type, and the suffixed accessor may meet a declared type.

Main statements: `generated_item_names_distinct` for the names analysis makes up, carried by two
invariants (`Context.Fresh` over resolution, `Progress.NamesAgree` over endpoints); and
`Model.typeItemNames_not_nodup` for a declared type named like an import, the case of
`bindingErrorContract_names_clash`.
-/

namespace ContractAbi

/-- The output struct the bindings declare for an endpoint, by name. -/
def Endpoint.outputStructName? (e : Endpoint) : Option String :=
  e.outputStruct?.map fun _ => e.outputStructName

/-- The output structs the bindings of some endpoints declare, in order. -/
def outputStructNames (es : List Endpoint) : List String :=
  es.filterMap Endpoint.outputStructName?

namespace Model

/-- The identifiers of the document's declared types, in order. -/
def declaredNames (m : Model) : List String :=
  m.typeDocs.map (Binding.typeIdent ·.1)

/-- The type names analysis makes up: the composites and the output structs. -/
def generatedNames (m : Model) : List String :=
  m.catalog.composites.keys.map Binding.typeIdent ++ outputStructNames m.endpoints

/-- The methods of the accessor: its own, then one per endpoint. -/
def methodNames (m : Model) : List String :=
  Binding.accessorMethods ++ m.endpoints.map (·.methodName)

/-- The names a model's bindings bring into their type namespace, one per item. -/
def typeItemNames (m : Model) : List String :=
  ["wire", "NestedDecoder", "WireArg"] ++ Binding.sortedUnique (Binding.runtimeItems ++ m.imports) ++
    m.customTypes.map Binding.primitiveType ++ m.declaredNames ++ m.generatedNames ++
    [m.accessorName]

end Model

theorem outputStructNames_append_singleton (es : List Endpoint) (e : Endpoint) :
    outputStructNames (es ++ [e]) = outputStructNames es ++ e.outputStructName?.toList := by
  simp only [outputStructNames, List.filterMap_append, List.filterMap_cons, List.filterMap_nil]
  cases e.outputStructName? <;> rfl

theorem mem_outputStructNames {n : String} {es : List Endpoint} (h : n ∈ outputStructNames es) :
    ∃ e ∈ es, n = e.outputStructName := by
  obtain ⟨e, he, hn⟩ := List.mem_filterMap.1 h
  simp only [Endpoint.outputStructName?, Option.map_eq_some_iff] at hn
  obtain ⟨-, -, rfl⟩ := hn
  exact ⟨e, he, rfl⟩

/-! ## Telling names apart by their ends -/

theorem getLast?_toList_append {s t : String} (ht : t.toList ≠ []) :
    (s ++ t).toList.getLast? = t.toList.getLast? := by
  rw [String.toList_append, List.getLast?_append]
  obtain ⟨c, hc⟩ := Option.isSome_iff_exists.1 (List.getLast?_isSome.2 ht)
  rw [hc, Option.some_or]

/-- A synthetic name ends in a digit. -/
theorem Registry.nameAt_getLast? (i : Nat) :
    ∃ c, (Registry.nameAt i).toList.getLast? = some c ∧ c.isDigit = true := by
  have hdigits : (toString i).toList = Nat.toDigits 10 i := by
    simp
  have hne : (toString i).toList ≠ [] := hdigits ▸ Nat.toDigits_ne_nil
  obtain ⟨c, hc⟩ := Option.isSome_iff_exists.1 (List.getLast?_isSome.2 hne)
  refine ⟨c, by rw [Registry.nameAt, getLast?_toList_append hne, hc], ?_⟩
  exact Nat.isDigit_of_mem_toDigits (by decide) (by decide)
    (hdigits ▸ List.mem_of_getLast? hc)

/-- A synthetic name is not one that ends in a letter. -/
theorem Registry.nameAt_ne_append {s t : String} {c : Char} (ht : t.toList.getLast? = some c)
    (hc : c.isDigit = false) (i : Nat) : Registry.nameAt i ≠ s ++ t := by
  intro h
  obtain ⟨d, hd, hdigit⟩ := Registry.nameAt_getLast? i
  have hne : t.toList ≠ [] := fun h' => by simp [h'] at ht
  rw [h, getLast?_toList_append hne, ht, Option.some.injEq] at hd
  rw [← hd, hc] at hdigit
  cases hdigit

/-- Two names with different endings of one length differ. -/
theorem append_ne_append_of_suffix {s t a b : String} (hlen : a.length = b.length) (hab : a ≠ b) :
    s ++ a ≠ t ++ b := by
  intro h
  have hl := congrArg String.toList h
  rw [String.toList_append, String.toList_append] at hl
  have hlen' : a.toList.length = b.toList.length := by
    rw [String.length_toList, String.length_toList]
    exact hlen
  exact hab (String.toList_inj.1 (List.append_inj' hl hlen').2)

theorem nameAt_ne_outputStructName (i : Nat) (e : Endpoint) :
    Registry.nameAt i ≠ e.outputStructName :=
  Registry.nameAt_ne_append (t := "Output") (c := 't') (by decide) (by decide) i

/-! ## Method names -/

theorem head?_toList_append {s t : String} (hs : s.toList ≠ []) :
    (s ++ t).toList.head? = s.toList.head? := by
  rw [String.toList_append, List.head?_append_of_ne_nil _ hs]

/-- An endpoint's method never takes the name of a method the accessor defines itself: a name
that would is moved aside, and an escaped one starts with `r`, `_` or ends with `_`. -/
theorem methodName_not_mem_accessorMethods (endpoint : String) :
    Binding.methodName endpoint ∉ Binding.accessorMethods := by
  have heads : ∀ x ∈ Binding.accessorMethods, x.toList.head? = some 'n' ∨
      x.toList.head? = some 't' ∨ x.toList.head? = some 'c' := by
    simp [Binding.accessorMethods]
  unfold Binding.methodName
  dsimp only
  split
  · rename_i hmem
    have h := List.contains_iff_mem.1 hmem
    simp only [Binding.accessorMethods, List.mem_cons, List.mem_nil_iff, or_false] at h ⊢
    rcases h with h | h | h <;> rw [h] <;> decide
  · rename_i hfree
    unfold Binding.escapeKeyword
    split
    · rename_i hpath
      have h := List.contains_iff_mem.1 hpath
      simp only [Binding.pathKeywords, List.mem_cons, List.mem_nil_iff, or_false] at h
      rcases h with h | h | h | h <;> rw [h] <;> decide
    split
    · intro hmem
      have h := heads _ hmem
      rw [head?_toList_append (by decide)] at h
      simp at h
    · split
      · decide
      · split
        · intro hmem
          have h := heads _ hmem
          rw [head?_toList_append (by decide)] at h
          simp at h
        · exact fun hmem => hfree (List.contains_iff_mem.2 hmem)

/-! ## Composites take fresh synthetic names -/

/-- The composites of a context are registered under distinct synthetic names, none of them one
of the reserved identifiers `R`, which the registry keeps. -/
structure Context.Fresh (R : List String) (c : Context) : Prop where
  reserved : c.composites.reserved = R
  nodup : c.composites.entries.keys.Nodup
  apart : ∀ n ∈ c.composites.entries.keys, n ∉ R
  synthetic : ∀ n ∈ c.composites.entries.keys, ∃ i, n = Registry.nameAt i

namespace Context.Fresh

variable {R : List String} {c : Context}

theorem forDocument (doc : AbiDocument) :
    (Context.forDocument doc).Fresh (doc.types.keys.map Binding.typeIdent) where
  reserved := rfl
  nodup := List.nodup_nil
  apart _ h := by cases h
  synthetic _ h := by cases h

theorem note (hc : c.Fresh R) (p : Primitive) : (c.note p).Fresh R := by
  obtain ⟨hr, hn, ha, hs⟩ := hc
  constructor <;> simp only [Context.note_composites] <;> assumption

/-- Registering members finds their entry, or appends one under the first free synthetic name. -/
theorem register (hc : c.Fresh R) (ms : List ResolvedType) :
    ({ c with composites := (c.composites.register ms).2 } : Context).Fresh R := by
  unfold Registry.register
  dsimp only
  split
  · exact hc
  · have hfree := Registry.register_name_free c.composites
    rw [← Bool.not_eq_true, Registry.taken_iff, not_or] at hfree
    obtain ⟨j, -, hj⟩ := Registry.freeFrom_index c.composites
      (c.composites.reserved.length + c.composites.entries.length) c.composites.entries.length
    have hmem : ∀ n, n ∈ OrderedMap.keys (c.composites.entries ++
        [(c.composites.freeFrom (c.composites.reserved.length + c.composites.entries.length)
          c.composites.entries.length, compositeFields ms)]) →
        n ∈ c.composites.entries.keys ∨
          n = c.composites.freeFrom (c.composites.reserved.length + c.composites.entries.length)
            c.composites.entries.length := by
      intro n hn
      simpa [OrderedMap.keys] using hn
    refine ⟨hc.reserved, ?_, fun n hn => ?_, fun n hn => ?_⟩
    · simpa [OrderedMap.keys] using
        hc.nodup.append (List.nodup_singleton _) (List.disjoint_singleton.2 hfree.2)
    · rcases hmem n hn with hn | rfl
      · exact hc.apart n hn
      · exact hc.reserved ▸ hfree.1
    · rcases hmem n hn with hn | rfl
      · exact hc.synthetic n hn
      · exact ⟨j, hj⟩

end Context.Fresh

theorem mapM_keeps {α β : Type} {P : Context → Prop} {f : α → Resolve β}
    (hf : ∀ x, Triple P (f x) fun _ => P) (xs : List α) : Triple P (xs.mapM f) fun _ => P :=
  Triple.mapM (I := fun _ => P) fun x _ _ => hf x

section Keeps

/-! Resolution changes the context only by noting primitives and registering composites, so it
keeps whatever those two keep. -/

variable {doc : AbiDocument} {P : Context → Prop} (hnote : ∀ c p, P c → P (c.note p))
  (hreg : ∀ c ms, P c → P { c with composites := (c.composites.register ms).2 })
include hnote hreg

omit hnote in
theorem registerComposite_keeps (ms : List ResolvedType) :
    Triple P (registerComposite ms) fun _ => P := by
  intro c n c' hc hr
  have hrun : ((registerComposite ms).run).run c =
      (.ok (c.composites.register ms).1, { c with composites := (c.composites.register ms).2 }) :=
    rfl
  rw [hrun] at hr
  cases hr
  exact hreg c ms hc

theorem resolveWith_keeps :
    ∀ (fuel : Nat) (expr : String), Triple P (resolveWith doc fuel expr) fun _ => P
  | 0, _ => Triple.throw
  | fuel + 1, expr => by
    have members : ∀ inner, Triple P (resolveMembers (resolveWith doc fuel) inner) fun _ => P := by
      intro inner
      unfold resolveMembers
      split
      · exact Triple.throw
      · exact mapM_keeps (resolveWith_keeps fuel) _
    have composite : ∀ (ms : List ResolvedType) (k : String → ResolvedType),
        Triple P (do return k (← registerComposite ms)) fun _ => P := fun ms _ =>
      Triple.bind (registerComposite_keeps hreg ms) fun _ => Triple.pure fun _ h => h
    unfold resolveWith
    split
    · exact Triple.throw
    · exact Triple.bind (Triple.modify fun c hc => hnote c _ hc) fun _ => Triple.pure fun _ h => h
    · split
      · exact Triple.pure fun _ h => h
      · exact Triple.pure fun _ h => h
      · exact Triple.throw
    · exact Triple.bind (resolveWith_keeps fuel _) fun _ => Triple.pure fun _ h => h
    · exact Triple.bind (resolveWith_keeps fuel _) fun _ => Triple.pure fun _ h => h
    · refine Triple.bind (members _) fun ms => ?_
      split
      · exact Triple.pure fun _ h => h
      · exact composite ms _
    · refine Triple.bind (members _) fun ms => ?_
      split
      · exact Triple.pure fun _ h => h
      · exact composite ms _
    · exact Triple.bind (members _) fun ms => composite ms _

theorem resolve_keeps (expr : String) : Triple P (resolve doc expr) fun _ => P :=
  resolveWith_keeps hnote hreg _ expr

theorem resolveFields_keeps (owner : String) :
    ∀ fields : List StructField, Triple P (resolveFields doc owner fields) fun _ => P
  | [] => Triple.pure fun _ h => h
  | f :: fs => by
    refine Triple.bind (resolve_keeps hnote hreg f.typeExpr) fun ty => ?_
    have rest : Triple P (do let r ← resolveFields doc owner fs; pure (⟨f.name, ty⟩ :: r))
        fun _ => P :=
      Triple.bind (resolveFields_keeps owner fs) fun _ => Triple.pure fun _ h => h
    split
    · exact Triple.bind Triple.throw fun _ => rest
    · exact rest

theorem resolveInputs_keeps (inputs : List EndpointInput) :
    Triple P (resolveInputs doc inputs) fun _ => P := by
  unfold resolveInputs
  refine mapM_keeps (fun i => ?_) inputs
  exact Triple.bind (resolve_keeps hnote hreg i.typeExpr) fun _ => Triple.pure fun _ h => h

theorem resolveOutputs_keeps (outputs : List EndpointOutput) :
    Triple P (resolveOutputs doc outputs) fun _ => P := by
  unfold resolveOutputs
  refine mapM_keeps (fun o => ?_) outputs
  exact Triple.bind (resolve_keeps hnote hreg o.typeExpr) fun _ => Triple.pure fun _ h => h

theorem classify_keeps {e : EndpointDescriptor} {c c' : Context} {r : Option Endpoint} (hc : P c)
    (h : ((classify doc e).run).run c = (.ok r, c')) : P c' := by
  rcases classify_ok h with ⟨-, rfl⟩ | ⟨ep, c₁, -, -, hins, hout⟩
  · exact hc
  have h₁ := resolveInputs_keeps hnote hreg e.inputs c _ c₁ hc hins
  rcases hout with ⟨-, houts, -⟩ | ⟨-, rfl, -, -⟩
  · exact resolveOutputs_keeps hnote hreg e.outputs c₁ _ c' h₁ houts
  · exact h₁

theorem declareAll_keeps : ∀ rest : OrderedMap TypeDefinition,
    Triple (fun s : Declarations × Context => P s.2) (declareAll doc rest) fun _ s => P s.2
  | [] => Triple.pure fun _ h => h
  | (name, .struct ds fields) :: rest => by
    intro s u s' hs h
    refine (Triple.bind (Declare.lift_triple (resolveFields_keeps hnote hreg name fields) s.1)
      fun resolved => Triple.bind (Triple.modify fun s₁ hs₁ => ?_)
        fun _ => declareAll_keeps rest) s u s' ⟨rfl, hs⟩ h
    exact hs₁.2
  | (name, .enum ds variants) :: rest =>
    Triple.bind (liftExcept_ok _) fun _ => Triple.bind (Triple.modify fun _ hs => hs.1)
      fun _ => declareAll_keeps rest

theorem declareTypes_keeps :
    Triple (fun s : Declarations × Context => P s.2) (declareTypes doc) fun _ s => P s.2 :=
  declareTypes_of_declareAll (declareAll_keeps hnote hreg doc.types)

theorem step_keeps {pol : Policy} {p q : Progress} {e : EndpointDescriptor} (hp : P p.context)
    (h : p.step doc pol e = .ok q) : P q.context := by
  rcases Progress.step_ok_cases h with ⟨ctx, hrun, rfl⟩ | ⟨c, names, ctx, hrun, -, rfl⟩ |
    ⟨err, -, rfl⟩
  · exact classify_keeps hnote hreg hp hrun
  · exact classify_keeps hnote hreg hp hrun
  · exact hp

end Keeps

/-! ## Claimed names -/

namespace OrderedMap

variable {α β : Type} {m : OrderedMap α} {k : String} {v : α}

theorem not_mem_keys_of_get? (h : m.get? k = none) : k ∉ m.keys := fun hk => by
  obtain ⟨v, hv⟩ := exists_get?_of_contains (contains_iff.2 hk)
  rw [h] at hv
  cases hv

theorem keys_insert_of_get? (h : m.get? k = none) : (m.insert k v).keys = m.keys ++ [k] := by
  have hc : m.contains k = false := by
    rw [← Bool.not_eq_true, contains_iff]
    exact not_mem_keys_of_get? h
  simp [insert_of_not_contains hc, keys]

/-- Folding inserts over a list keeps the keys distinct and adds the keys of the list. -/
theorem keys_foldl_insert (g : OrderedMap α → β → OrderedMap α) (key : β → String)
    (hg : ∀ m b, ∃ v, g m b = m.insert (key b) v) :
    ∀ (l : List β) (m : OrderedMap α), m.keys.Nodup →
      (l.foldl g m).keys.Nodup ∧ ∀ x, x ∈ (l.foldl g m).keys ↔ x ∈ m.keys ∨ x ∈ l.map key
  | [], m, hm => ⟨hm, fun x => by simp⟩
  | b :: l, m, hm => by
    obtain ⟨v, hv⟩ := hg m b
    have hstep : (g m b).keys.Nodup ∧ ∀ x, x ∈ (g m b).keys ↔ x ∈ m.keys ∨ x = key b := by
      rw [hv]
      cases hc : m.contains (key b)
      · have hk : key b ∉ m.keys := by
          rw [← contains_iff, hc]
          exact Bool.false_ne_true
        have hkeys : keys (m ++ [(key b, v)]) = m.keys ++ [key b] := by
          simp [keys]
        rw [insert_of_not_contains hc, hkeys]
        refine ⟨List.nodup_append.2 ⟨hm, List.nodup_singleton _, ?_⟩, fun x => by simp⟩
        rintro x hx y hy rfl
        exact hk (List.mem_singleton.1 hy ▸ hx)
      · rw [keys_insert_of_mem m _ v hc]
        refine ⟨hm, fun x => ⟨Or.inl, ?_⟩⟩
        rintro (hx | rfl)
        · exact hx
        · exact contains_iff.1 hc
    obtain ⟨hnodup, hmem⟩ := keys_foldl_insert g key hg l (g m b) hstep.1
    refine ⟨hnodup, fun x => ?_⟩
    rw [List.foldl_cons, hmem, hstep.2, List.map_cons, List.mem_cons]
    tauto

end OrderedMap

/-- The document's declared types own their identifiers, once each. -/
theorem ItemNames.forDocument_types (doc : AbiDocument) :
    (ItemNames.forDocument doc).types.keys.Nodup ∧
      ∀ x, x ∈ (ItemNames.forDocument doc).types.keys ↔ x ∈ doc.types.keys.map Binding.typeIdent := by
  obtain ⟨hnodup, hmem⟩ := OrderedMap.keys_foldl_insert _
    (fun b : String × TypeDefinition => Binding.typeIdent b.1) (fun m b => ⟨b.1, rfl⟩) doc.types []
    List.nodup_nil
  refine ⟨hnodup, fun x => (hmem x).trans ?_⟩
  simp [OrderedMap.keys]

/-- A claim succeeds only on a method name not yet taken and an output struct name not yet taken,
and appends both. -/
theorem ItemNames.claim_ok {names names' : ItemNames} {e : Endpoint}
    (h : names.claim e = .ok names') :
    e.methodName ∉ names.methods.keys ∧
      names'.methods.keys = names.methods.keys ++ [e.methodName] ∧
      (∀ n ∈ e.outputStructName?.toList, n ∉ names.types.keys) ∧
      names'.types.keys = names.types.keys ++ e.outputStructName?.toList := by
  unfold ItemNames.claim at h
  cases hm : names.methods.get? e.methodName with
  | some owner =>
    simp only [hm] at h
    cases h
  | none =>
    have hmeth := OrderedMap.not_mem_keys_of_get? hm
    cases ho : e.outputStruct? with
    | none =>
      simp only [hm, ho] at h
      cases h
      simp [Endpoint.outputStructName?, ho, OrderedMap.keys_insert_of_get? hm, hmeth]
    | some fields =>
      cases ht : names.types.get? e.outputStructName with
      | some owner =>
        simp only [hm, ho, ht] at h
        cases h
      | none =>
        simp only [hm, ho, ht] at h
        cases h
        simp [Endpoint.outputStructName?, ho, OrderedMap.keys_insert_of_get? hm,
          OrderedMap.keys_insert_of_get? ht, hmeth, OrderedMap.not_mem_keys_of_get? ht]

/-! ## Endpoint names as analysis claims them -/

/-- The names claimed while analyzing endpoints are those of the endpoints taken so far: their
methods, and after the declared types' identifiers their output structs, each name once. -/
structure Progress.NamesAgree (doc : AbiDocument) (p : Progress) : Prop where
  methods : p.names.methods.keys = p.endpoints.map (·.methodName)
  methods_nodup : p.names.methods.keys.Nodup
  methods_free : ∀ e ∈ p.endpoints, e.methodName ∉ Binding.accessorMethods
  types : p.names.types.keys = (ItemNames.forDocument doc).types.keys ++ outputStructNames p.endpoints
  types_nodup : p.names.types.keys.Nodup

namespace Progress.NamesAgree

variable {doc : AbiDocument} {pol : Policy}

theorem initial (ctx : Context) : (Progress.initial doc ctx).NamesAgree doc where
  methods := rfl
  methods_nodup := List.nodup_nil
  methods_free _ h := by cases h
  types := (List.append_nil _).symm
  types_nodup := (ItemNames.forDocument_types doc).1

/-- The agreement reads only the names and the endpoints. -/
theorem of_eq {p q : Progress} (hp : p.NamesAgree doc) (hnames : q.names = p.names)
    (hend : q.endpoints = p.endpoints) : q.NamesAgree doc := by
  obtain ⟨h₁, h₂, h₃, h₄, h₅⟩ := hp
  rw [← hnames, ← hend] at *
  exact ⟨h₁, h₂, h₃, h₄, h₅⟩

/-- One endpoint keeps the agreement: it is dropped, or fails and is recorded, or is classified
and claims its names. -/
theorem step {p q : Progress} {e : EndpointDescriptor} (hp : p.NamesAgree doc)
    (h : p.step doc pol e = .ok q) : q.NamesAgree doc := by
  rcases Progress.step_ok_cases h with ⟨ctx, -, rfl⟩ | ⟨c, names, ctx, hrun, hclaim, rfl⟩ |
    ⟨err, -, rfl⟩
  · exact hp.of_eq rfl rfl
  · obtain ⟨hfree, hmeth, hout, htypes⟩ := ItemNames.claim_ok hclaim
    have hname : c.methodName = Binding.methodName e.name := by
      rcases classify_ok hrun with ⟨hnone, -⟩ | ⟨ep, c₁, hep, hname, -⟩
      · cases hnone
      · cases hep
        exact hname
    refine ⟨?_, ?_, ?_, ?_, ?_⟩
    · simp [hmeth, hp.methods]
    · rw [hmeth]
      exact hp.methods_nodup.append (List.nodup_singleton _) (List.disjoint_singleton.2 hfree)
    · intro e' he'
      rcases List.mem_append.1 he' with he' | he'
      · exact hp.methods_free e' he'
      · rw [List.mem_singleton.1 he', hname]
        exact methodName_not_mem_accessorMethods e.name
    · rw [htypes, hp.types, outputStructNames_append_singleton, List.append_assoc]
    · rw [htypes]
      refine List.nodup_append.2 ⟨hp.types_nodup, Option.toList_nodup _, ?_⟩
      rintro x hx y hy rfl
      exact hout x hy hx
  · exact hp.of_eq rfl rfl

/-- The methods of the accessor and of the endpoints taken so far are distinct. -/
theorem methods_distinct {p : Progress} (hp : p.NamesAgree doc) :
    (Binding.accessorMethods ++ p.endpoints.map (·.methodName)).Nodup := by
  rw [← hp.methods]
  refine List.nodup_append.2 ⟨by decide, hp.methods_nodup, ?_⟩
  rintro x hx y hy rfl
  rw [hp.methods] at hy
  obtain ⟨e, he, rfl⟩ := List.mem_map.1 hy
  exact hp.methods_free e he hx

/-- The output structs taken so far are distinct and apart from the declared types. -/
theorem outputs_distinct {p : Progress} (hp : p.NamesAgree doc) :
    (outputStructNames p.endpoints).Nodup ∧
      ∀ n ∈ outputStructNames p.endpoints, n ∉ doc.types.keys.map Binding.typeIdent := by
  have htypes := hp.types_nodup
  rw [hp.types] at htypes
  obtain ⟨-, hnodup, hdisjoint⟩ := List.nodup_append.1 htypes
  exact ⟨hnodup, fun n hn hd => hdisjoint n (((ItemNames.forDocument_types doc).2 n).2 hd) n hn rfl⟩

/-- A type name not claimed is neither a declared type's identifier nor an output struct. -/
theorem not_claimed {p : Progress} (hp : p.NamesAgree doc) {n : String}
    (h : n ∉ p.names.types.keys) :
    n ∉ doc.types.keys.map Binding.typeIdent ∧ n ∉ outputStructNames p.endpoints := by
  rw [hp.types, List.mem_append, not_or, (ItemNames.forDocument_types doc).2] at h
  exact h

end Progress.NamesAgree

/-! ## The names analysis makes up -/

/-- Synthetic names are identifiers as they are: no keyword starts with `C`, nor a digit. -/
theorem Registry.typeIdent_nameAt (i : Nat) :
    Binding.typeIdent (Registry.nameAt i) = Registry.nameAt i := by
  obtain ⟨rest, hrest⟩ : ∃ rest, (Registry.nameAt i).toList = 'C' :: rest :=
    ⟨_, by rw [Registry.nameAt, String.toList_append]; rfl⟩
  have hheads : ∀ kw ∈ Binding.pathKeywords ++ Binding.rawKeywords, kw.toList.head? ≠ some 'C' := by
    decide
  have hkw : ∀ kw ∈ Binding.pathKeywords ++ Binding.rawKeywords, Registry.nameAt i ≠ kw :=
    fun kw hmem h => hheads kw hmem (by rw [← h, hrest]; rfl)
  unfold Binding.typeIdent Binding.escapeKeyword
  rw [if_neg fun h => hkw _ (List.mem_append_left _ (List.contains_iff_mem.1 h)) rfl,
    if_neg fun h => hkw _ (List.mem_append_right _ (List.contains_iff_mem.1 h)) rfl]
  simp only [hrest]
  rfl

theorem map_typeIdent_of_synthetic {l : List String} (h : ∀ n ∈ l, ∃ i, n = Registry.nameAt i) :
    l.map Binding.typeIdent = l := by
  calc l.map Binding.typeIdent = l.map id := List.map_congr_left fun n hn => by
        obtain ⟨i, rfl⟩ := h n hn
        exact Registry.typeIdent_nameAt i
    _ = l := List.map_id l

/-- The accessor is the contract's type identifier, suffixed by `Client` whenever that identifier
is a claimed type name or a composite. -/
theorem Progress.model_accessorName_cases (doc : AbiDocument) (decls : Declarations)
    (p : Progress) :
    (p.model doc decls).accessorName =
        Binding.typeIdent (Binding.pascalCase doc.name) ++ "Client" ∨
      ((p.model doc decls).accessorName = Binding.typeIdent (Binding.pascalCase doc.name) ∧
        Binding.typeIdent (Binding.pascalCase doc.name) ∉ p.names.types.keys ∧
        Binding.typeIdent (Binding.pascalCase doc.name) ∉ p.context.composites.entries.keys) := by
  unfold Progress.model
  dsimp only
  split
  · exact Or.inl rfl
  · rename_i htaken
    simp only [Bool.or_eq_true, not_or, Bool.not_eq_true] at htaken
    refine Or.inr ⟨rfl, fun h => ?_, fun h => ?_⟩
    · rw [← OrderedMap.contains_iff, htaken.1] at h
      cases h
    · have hcomp : p.context.composites.entries.contains
          (Binding.typeIdent (Binding.pascalCase doc.name)) = false := htaken.2
      rw [← OrderedMap.contains_iff, hcomp] at h
      cases h

theorem Progress.model_declaredNames (doc : AbiDocument) (decls : Declarations) (p : Progress) :
    (p.model doc decls).declaredNames = doc.types.keys.map Binding.typeIdent := by
  simp [Model.declaredNames, Progress.model, OrderedMap.keys]

/-- The names analysis makes up are distinct from one another and from the declared types; the
accessor only after its suffix moves it aside. -/
structure Model.GeneratedNamesDistinct (m : Model) : Prop where
  methods : m.methodNames.Nodup
  generated : m.generatedNames.Nodup
  generated_apart : ∀ n ∈ m.generatedNames, n ∉ m.declaredNames
  accessor_apart : m.accessorName ∉ m.generatedNames
  accessor_declared : m.accessorName ∈ m.declaredNames →
    m.accessorName = Binding.typeIdent (Binding.pascalCase m.name) ++ "Client"

/-- Through declarations and endpoints, the composites keep fresh synthetic names. -/
theorem analysis_fresh {d : AbiDocument} {pol : Policy} {decls : Declarations} {ctx : Context}
    {p : Progress}
    (hdecl : ((declareTypes d).run).run ({}, Context.forDocument d) = (.ok (), decls, ctx))
    (hfold : d.endpoints.foldlM (Progress.step d pol) (Progress.initial d ctx) = .ok p) :
    p.context.Fresh (d.types.keys.map Binding.typeIdent) := by
  have hctx : ctx.Fresh (d.types.keys.map Binding.typeIdent) :=
    declareTypes_keeps (fun _ _ hc => hc.note _) (fun _ ms hc => hc.register ms) _ () _
      (Context.Fresh.forDocument d) hdecl
  exact Progress.foldlM_inv (fun q => q.context.Fresh _)
    (fun hq hs => step_keeps (fun _ _ hc => hc.note _) (fun _ ms hc => hc.register ms) hq hs)
    hctx hfold

/-- The composites of an analyzed model have synthetic names. -/
theorem analyze_composites_synthetic {d : AbiDocument} {pol : Policy} {m : Model}
    (h : analyze d pol = .ok m) : ∀ n ∈ m.catalog.composites.keys, ∃ i, n = Registry.nameAt i := by
  obtain ⟨decls, ctx, p, hdecl, hfold, rfl⟩ := analyze_ok h
  exact (analysis_fresh hdecl hfold).synthetic

/-- The accessor is no generated name, and a declared type's identifier only once suffixed. -/
theorem Progress.model_accessor_apart {d : AbiDocument} {decls : Declarations} {p : Progress}
    (hfresh : p.context.Fresh (d.types.keys.map Binding.typeIdent)) (hnames : p.NamesAgree d) :
    (p.model d decls).accessorName ∉
        p.context.composites.entries.keys ++ outputStructNames p.endpoints ∧
      ((p.model d decls).accessorName ∈ d.types.keys.map Binding.typeIdent →
        (p.model d decls).accessorName =
          Binding.typeIdent (Binding.pascalCase d.name) ++ "Client") := by
  rcases Progress.model_accessorName_cases d decls p with hacc | ⟨hacc, hclaimed, hcomp⟩
  · refine ⟨?_, fun _ => hacc⟩
    rw [hacc, List.mem_append, not_or]
    constructor
    · intro hn
      obtain ⟨i, hi⟩ := hfresh.synthetic _ hn
      exact Registry.nameAt_ne_append (t := "Client") (c := 't') (by decide) (by decide) i hi.symm
    · intro hn
      obtain ⟨e, -, he⟩ := mem_outputStructNames hn
      exact append_ne_append_of_suffix (a := "Client") (b := "Output") (by decide) (by decide) he
  · obtain ⟨hdeclared, hout⟩ := hnames.not_claimed hclaimed
    rw [hacc, List.mem_append, not_or]
    exact ⟨⟨hcomp, hout⟩, fun hd => absurd hd hdeclared⟩

theorem generated_item_names_distinct {d : AbiDocument} {pol : Policy} {m : Model}
    (h : analyze d pol = .ok m) : m.GeneratedNamesDistinct := by
  obtain ⟨decls, ctx, p, hdecl, hfold, rfl⟩ := analyze_ok h
  have hfresh := analysis_fresh hdecl hfold
  have hnames : p.NamesAgree d :=
    Progress.foldlM_inv _ (fun hq hs => hq.step hs) (Progress.NamesAgree.initial ctx) hfold
  obtain ⟨houtsNodup, houtDeclared⟩ := hnames.outputs_distinct
  have hgenerated : (p.model d decls).generatedNames =
      p.context.composites.entries.keys ++ outputStructNames p.endpoints := by
    rw [Model.generatedNames, Progress.model_catalog, Progress.model_endpoints,
      Declarations.catalog, map_typeIdent_of_synthetic hfresh.synthetic]
  refine ⟨hnames.methods_distinct, ?_, ?_, ?_, ?_⟩
  · rw [hgenerated]
    refine List.nodup_append.2 ⟨hfresh.nodup, houtsNodup, ?_⟩
    rintro x hx y hy rfl
    obtain ⟨i, rfl⟩ := hfresh.synthetic x hx
    obtain ⟨e, -, he⟩ := mem_outputStructNames hy
    exact nameAt_ne_outputStructName i e he
  · rw [hgenerated, Progress.model_declaredNames]
    intro n hn
    rcases List.mem_append.1 hn with hn | hn
    · exact hfresh.apart n hn
    · exact houtDeclared n hn
  · rw [hgenerated]
    exact (Progress.model_accessor_apart hfresh hnames).1
  · rw [Progress.model_declaredNames]
    exact (Progress.model_accessor_apart hfresh hnames).2

theorem pairContract_names_distinct :
    ∃ m, analyze pairContract .strict = .ok m ∧ m.GeneratedNamesDistinct := by
  obtain ⟨m, hm⟩ : ∃ m, analyze pairContract .strict = .ok m := ⟨_, rfl⟩
  exact ⟨m, hm, generated_item_names_distinct hm⟩

/-! ## Names taken from the document -/

/-- A declared type whose identifier is a runtime import, or an import the model needs, is
brought into the module twice. Analysis does not look for this. -/
theorem Model.typeItemNames_not_nodup {m : Model} {n : String}
    (himport : n ∈ Binding.runtimeItems ++ m.imports) (hdeclared : n ∈ m.declaredNames) :
    ¬ m.typeItemNames.Nodup := by
  intro h
  unfold Model.typeItemNames at h
  have h₁ := (List.nodup_append.1 (List.nodup_append.1 h).1).1
  obtain ⟨-, -, hdisjoint⟩ := List.nodup_append.1 h₁
  have hsorted : n ∈ Binding.sortedUnique (Binding.runtimeItems ++ m.imports) := by
    rw [Binding.sortedUnique, List.mem_eraseDups, List.mem_mergeSort]
    exact himport
  exact hdisjoint n (List.mem_append_left _ (List.mem_append_right _ hsorted)) n hdeclared rfl

/-- A contract declaring a struct under the name of a runtime import. -/
def bindingErrorContract : AbiDocument where
  buildInfo := { framework := { name := "multiversx-sc", version := "0.39.4" } }
  name := "Vault"
  types := [("BindingError", .struct [] [⟨"code", "u8"⟩])]

theorem bindingErrorContract_names_clash :
    ∃ m, analyze bindingErrorContract .strict = .ok m ∧ ¬ m.typeItemNames.Nodup := by
  obtain ⟨m, hm⟩ : ∃ m, analyze bindingErrorContract .strict = .ok m := ⟨_, rfl⟩
  refine ⟨m, hm, Model.typeItemNames_not_nodup (n := "BindingError")
    (List.mem_append_left _ (by decide)) ?_⟩
  obtain ⟨decls, ctx, p, -, -, rfl⟩ := analyze_ok hm
  rw [Progress.model_declaredNames]
  decide

end ContractAbi
