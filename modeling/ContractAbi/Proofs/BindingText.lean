import ContractAbi.Proofs.Emission
import ContractAbi.Proofs.ItemNames

/-!
# What a bindings file declares

The text of a bindings file declares types for the rest of it to refer to. The use line of the
header imports the runtime's items, each alias and each declared struct or enum has the line that
opens it (`DeclaresType`), and a record-like type whose fields fit inside a record, or an enum, has
an impl block holding its nested and whole-slot decoders (`DefinesDecoders`).

The names a model's bindings bring into scope are `Model.typesInScope`, and those written with
decoders `Model.decodableTypes`. Whenever the file is written, its text declares each of the first
(`source_declares_typesInScope`) and defines the decoders of each of the second
(`source_defines_decoders`).
-/

namespace ContractAbi

namespace Binding

/-- `piece` occurs in `text`. -/
def Contains (text piece : String) : Prop :=
  ∃ pre post, text = pre ++ piece ++ post

namespace Contains

variable {s t u : String}

theorem refl (s : String) : Contains s s :=
  ⟨"", "", by rw [String.empty_append, String.append_empty]⟩

theorem trans (h₁ : Contains s t) (h₂ : Contains t u) : Contains s u := by
  obtain ⟨a, b, rfl⟩ := h₁
  obtain ⟨c, d, rfl⟩ := h₂
  exact ⟨a ++ c, d ++ b, by simp only [String.append_assoc]⟩

theorem append_right (h : Contains s t) (u : String) : Contains (s ++ u) t := by
  obtain ⟨a, b, rfl⟩ := h
  exact ⟨a, b ++ u, by simp only [String.append_assoc]⟩

theorem append_left (u : String) (h : Contains s t) : Contains (u ++ s) t := by
  obtain ⟨a, b, rfl⟩ := h
  exact ⟨u ++ a, b, by simp only [String.append_assoc]⟩

theorem join {ts : List String} (h : t ∈ ts) : Contains (String.join ts) t := by
  induction ts with
  | nil => cases h
  | cons x ts ih =>
    rw [String.join_cons]
    rcases List.mem_cons.1 h with rfl | h
    · exact (refl t).append_right _
    · exact (ih h).append_left x

end Contains

/-- Joined texts are the texts of the items, in order. -/
theorem joinMapM_eq_ok {α : Type} {f : α → Except ConversionError String} {xs : List α}
    {s : String} (h : joinMapM f xs = .ok s) :
    ∃ ts, s = String.join ts ∧ (∀ t ∈ ts, ∃ x ∈ xs, f x = .ok t) ∧
      ∀ x ∈ xs, ∃ t ∈ ts, f x = .ok t := by
  unfold joinMapM at h
  suffices hacc : ∀ acc s, xs.foldlM (fun acc x => (acc ++ ·) <$> f x) acc = .ok s →
      ∃ ts, s = acc ++ String.join ts ∧ (∀ t ∈ ts, ∃ x ∈ xs, f x = .ok t) ∧
        ∀ x ∈ xs, ∃ t ∈ ts, f x = .ok t by
    obtain ⟨ts, hs, hts⟩ := hacc "" s h
    exact ⟨ts, hs.trans String.empty_append, hts⟩
  clear h
  induction xs with
  | nil =>
    intro acc s h
    cases h
    exact ⟨[], by rw [String.join_nil, String.append_empty], nofun, nofun⟩
  | cons x xs ih =>
    intro acc s h
    rw [List.foldlM_cons] at h
    cases hx : f x with
    | error e =>
      rw [hx] at h
      cases h
    | ok t =>
      rw [hx] at h
      obtain ⟨ts, rfl, hts, hxs⟩ := ih (acc ++ t) s h
      refine ⟨t :: ts, by rw [String.join_cons, String.append_assoc], fun t' ht' => ?_,
        fun y hy => ?_⟩
      · rcases List.mem_cons.1 ht' with rfl | ht'
        · exact ⟨x, List.mem_cons_self, hx⟩
        · obtain ⟨y, hy, hfy⟩ := hts t' ht'
          exact ⟨y, List.mem_cons_of_mem _ hy, hfy⟩
      · rcases List.mem_cons.1 hy with rfl | hy
        · exact ⟨t, List.mem_cons_self, hx⟩
        · obtain ⟨t', ht', hfy⟩ := hxs y hy
          exact ⟨t', List.mem_cons_of_mem _ ht', hfy⟩

/-- The text of every item occurs in the joined text. -/
theorem contains_of_joinMapM {α : Type} {f : α → Except ConversionError String} {xs : List α}
    {s : String} (h : joinMapM f xs = .ok s) {x : α} (hx : x ∈ xs) :
    ∃ t, f x = .ok t ∧ Contains s t := by
  obtain ⟨ts, rfl, -, hxs⟩ := joinMapM_eq_ok h
  obtain ⟨t, ht, hfx⟩ := hxs x hx
  exact ⟨t, hfx, Contains.join ht⟩

/-! ## Declarations in text -/

/-- How a bindings text brings the type name `n` into scope: it declares a struct, an enum or an
alias of that name, or a use line imports it. -/
inductive DeclaresType (text n : String) : Prop
  | struct : Contains text (line 0 ("pub struct " ++ n ++ " \x7b")) → DeclaresType text n
  | enum : Contains text (line 0 ("pub enum " ++ n ++ " \x7b")) → DeclaresType text n
  | aliased (target : String) :
      Contains text (line 0 ("pub type " ++ n ++ " = " ++ target ++ ";")) → DeclaresType text n
  | imported (crate : String) (names : List String) : n ∈ names →
      Contains text (line 0 ("use " ++ crate ++ "::\x7b" ++ ", ".intercalate names ++ "\x7d;")) →
        DeclaresType text n

/-- A bindings text writes the decoders of `n`: an impl block of `n` whose functions include
`decode_nested` and `top_decode`. -/
def DefinesDecoders (text n : String) : Prop :=
  ∃ fns : List ImplFn, Contains text (implBlock n fns) ∧
    "decode_nested" ∈ fns.map (·.name) ∧ "top_decode" ∈ fns.map (·.name)

theorem DeclaresType.of_contains {text t n : String} (h : Contains text t)
    (hd : DeclaresType t n) : DeclaresType text n := by
  cases hd with
  | struct hc => exact .struct (h.trans hc)
  | enum hc => exact .enum (h.trans hc)
  | aliased target hc => exact .aliased target (h.trans hc)
  | imported crate names hn hc => exact .imported crate names hn (h.trans hc)

theorem DefinesDecoders.of_contains {text t n : String} (h : Contains text t)
    (hd : DefinesDecoders t n) : DefinesDecoders text n := by
  obtain ⟨fns, hc, hnested, htop⟩ := hd
  exact ⟨fns, h.trans hc, hnested, htop⟩

/-! ## The items of a bindings file -/

/-- Every field fits inside a record: the condition on which a record-like item gets decoders. -/
def fieldsNest (fields : List Field) : Bool :=
  fields.all fun f => (Shape.checkNested f.type).toBool

theorem fieldsNest_iff {fields : List Field} :
    fieldsNest fields = true ↔ ∀ f ∈ fields, Shape.checkNested f.type = .ok () := by
  simp only [fieldsNest, List.all_eq_true]
  refine forall₂_congr fun f _ => ?_
  cases Shape.checkNested f.type with
  | error e => simp [Except.toBool]
  | ok u => simp [Except.toBool]

theorem recordItem_contains {name : String} {fields : List Field} {docs : List String}
    {c : Catalog} {s : String} (h : recordItem name fields docs c = .ok s) :
    DeclaresType s (typeIdent name) ∧ (fieldsNest fields = true → DefinesDecoders s (typeIdent name)) := by
  unfold recordItem at h
  obtain ⟨zeros, -, h⟩ := bind_eq_ok h
  simp only [pure, Except.pure, Except.ok.injEq] at h
  subst h
  refine ⟨.struct ?_, fun hnest => ⟨[decodeNestedFn fields, recordTopDecodeFn], ?_,
    by simp [decodeNestedFn], by simp [recordTopDecodeFn]⟩⟩
  · iterate 11 apply Contains.append_right
    exact Contains.append_left _ (.refl _)
  · rw [fieldsNest] at hnest
    rw [if_pos hnest]
    iterate 7 apply Contains.append_right
    exact Contains.append_left _ ((Contains.refl _).append_right _)

theorem enumItem_contains {name : String} {variants : List Variant} {docs : List String}
    {s : String} (h : enumItem name variants docs = .ok s) :
    DeclaresType s (typeIdent name) ∧ DefinesDecoders s (typeIdent name) := by
  unfold enumItem at h
  cases hd : defaultVariant variants with
  | none =>
    simp only [hd] at h
    cases h
  | some dflt =>
    simp only [hd, pure, Except.pure, Except.ok.injEq] at h
    subst h
    refine ⟨.enum ?_, ⟨enumFns name variants, ?_, by simp [enumFns], by simp [enumFns]⟩⟩
    · iterate 16 apply Contains.append_right
      exact Contains.append_left _ (.refl _)
    · iterate 12 apply Contains.append_right
      exact Contains.append_left _ (.refl _)

theorem outputStructItem_declares (name : String) (fields : List (String × ResolvedType)) :
    DeclaresType (outputStructItem name fields) name := by
  refine .struct ?_
  iterate 2 apply Contains.append_right
  exact Contains.append_left _ (.refl _)

/-- A declared item declares its type when the catalog has it, and writes its decoders when it is
a record whose fields fit inside a record or an enum. -/
theorem declaredItem_contains {o : Options} {m : Model} {n : String} {docs : List String}
    {s : String} (h : declaredItem o m n docs = .ok s) :
    ((m.catalog.records.contains n || m.catalog.enums.contains n) = true →
        DeclaresType s (typeIdent n)) ∧
      (∀ fields, m.catalog.records.get? n = some fields → fieldsNest fields = true →
        DefinesDecoders s (typeIdent n)) ∧
      (m.catalog.records.get? n = none → m.catalog.enums.contains n = true →
        DefinesDecoders s (typeIdent n)) := by
  have hnl : ∀ t, Contains ("\n" ++ t) t := fun t => (Contains.refl t).append_left "\n"
  unfold declaredItem at h
  cases hrec : m.catalog.records.get? n with
  | some fields =>
    simp only [hrec] at h
    obtain ⟨t, ht, rfl⟩ := Except.map_eq_ok_iff.1 h
    have hitem := recordItem_contains ht
    refine ⟨fun _ => hitem.1.of_contains (hnl t), fun fs hfs hnest => ?_, nofun⟩
    cases hfs
    exact (hitem.2 hnest).of_contains (hnl t)
  | none =>
    simp only [hrec] at h
    cases henum : m.catalog.enums.get? n with
    | some variants =>
      simp only [henum] at h
      obtain ⟨t, ht, rfl⟩ := Except.map_eq_ok_iff.1 h
      have hitem := enumItem_contains ht
      exact ⟨fun _ => hitem.1.of_contains (hnl t), nofun,
        fun _ _ => hitem.2.of_contains (hnl t)⟩
    | none =>
      simp only [OrderedMap.contains_eq_false_of_get? hrec,
        OrderedMap.contains_eq_false_of_get? henum, Bool.or_self]
      exact ⟨nofun, nofun, nofun⟩

theorem mem_sortedUnique {n : String} {xs : List String} : n ∈ sortedUnique xs ↔ n ∈ xs := by
  simp [sortedUnique, List.mem_eraseDups, List.mem_mergeSort]

/-- The aliases of the custom primitives in use, each on its line. -/
theorem aliases_contains {custom : List Primitive} {p : Primitive} (hp : p ∈ custom) :
    Contains (if (aliases custom).isEmpty then "" else "\n" ++ aliases custom)
      (line 0 ("pub type " ++ primitiveType p ++ " = " ++ aliasTarget p ++ ";")) := by
  have hc : Contains (aliases custom)
      (line 0 ("pub type " ++ primitiveType p ++ " = " ++ aliasTarget p ++ ";")) :=
    Contains.join (List.mem_map_of_mem hp)
  cases custom with
  | nil => cases hp
  | cons q qs =>
    rw [if_neg (by simp [aliases, line])]
    exact hc.append_left "\n"

/-- The pieces a written bindings file holds: the use line importing the runtime's items, a line
per alias, and the items of the declared types, of the composites and of the output structs. -/
structure SourcePieces (o : Options) (m : Model) (text : String) : Prop where
  imports : Contains text (line 0 ("use " ++ o.runtimeCrate ++ "::\x7b" ++
    ", ".intercalate (sortedUnique (runtimeItems ++ m.imports)) ++ "\x7d;"))
  aliases : ∀ p ∈ m.customTypes,
    Contains text (line 0 ("pub type " ++ primitiveType p ++ " = " ++ aliasTarget p ++ ";"))
  declared : ∀ n docs, (n, docs) ∈ m.typeDocs → ∃ t, declaredItem o m n docs = .ok t ∧ Contains text t
  composites : ∀ n fields, (n, fields) ∈ m.catalog.composites →
    ∃ t, recordItem n fields [] m.catalog = .ok t ∧ Contains text t
  outputStructs : ∀ e ∈ m.endpoints, ∀ fields, e.outputStruct? = some fields →
    Contains text (outputStructItem e.outputStructName fields)

theorem source_pieces {o : Options} {m : Model} {text : String} (h : source o m = .ok text) :
    SourcePieces o m text := by
  unfold source at h
  obtain ⟨declared, hdecl, h⟩ := bind_eq_ok h
  obtain ⟨composites, hcomp, h⟩ := bind_eq_ok h
  obtain ⟨rest, -, h⟩ := bind_eq_ok h
  simp only [pure, Except.pure, Except.ok.injEq] at h
  subst h
  refine ⟨?_, fun p hp => ?_, fun n docs hx => ?_, fun n fields hx => ?_, fun e he fields hs => ?_⟩
  · iterate 6 apply Contains.append_right
    exact Contains.append_left _ (.refl _)
  · iterate 5 apply Contains.append_right
    exact Contains.append_left _ (aliases_contains hp)
  · obtain ⟨t, ht, hc⟩ := contains_of_joinMapM hdecl hx
    refine ⟨t, ht, ?_⟩
    iterate 4 apply Contains.append_right
    exact Contains.append_left _ hc
  · obtain ⟨t, ht, hc⟩ := contains_of_joinMapM hcomp hx
    obtain ⟨r, hr, rfl⟩ := Except.map_eq_ok_iff.1 ht
    refine ⟨r, hr, ?_⟩
    iterate 3 apply Contains.append_right
    exact Contains.append_left _ (hc.trans ((Contains.refl r).append_left "\n"))
  · iterate 2 apply Contains.append_right
    refine Contains.append_left _ ((Contains.join (List.mem_map.2 ⟨e, he, rfl⟩)).trans ?_)
    simp only [hs]
    exact (Contains.refl _).append_left "\n"

end Binding

/-! ## The names a model's bindings declare -/

/-- The declared types the bindings write, by identifier: those the catalog has as a record or an
enum. -/
def Model.writtenTypes (m : Model) : List String :=
  (m.typeDocs.filter fun d => m.catalog.records.contains d.1 || m.catalog.enums.contains d.1).map
    (Binding.typeIdent ·.1)

/-- The type names in scope in a model's bindings: the runtime's items and the imports, the
aliases, the declared types written, the composites and the output structs. -/
def Model.typesInScope (m : Model) : List String :=
  Binding.runtimeItems ++ m.imports ++ m.customTypes.map Binding.primitiveType ++ m.writtenTypes ++
    m.catalog.composites.keys.map Binding.typeIdent ++ outputStructNames m.endpoints

/-- The types the bindings write with decoders, by name: every declared enum, and every record or
composite whose fields all fit inside a record. -/
def Model.decodableTypes (m : Model) : List String :=
  (m.typeDocs.filterMap fun d =>
    match m.catalog.records.get? d.1 with
    | some fields => if Binding.fieldsNest fields then some (Binding.typeIdent d.1) else none
    | none => if m.catalog.enums.contains d.1 then some (Binding.typeIdent d.1) else none) ++
  (m.catalog.composites.filter (Binding.fieldsNest ·.2)).map (Binding.typeIdent ·.1)

namespace Binding

variable {o : Options} {m : Model} {text : String}

/-- Every name in scope in a model's bindings is declared or imported by the text written. -/
theorem source_declares_typesInScope (h : source o m = .ok text) :
    ∀ n ∈ m.typesInScope, DeclaresType text n := by
  have hp := source_pieces h
  intro n hn
  simp only [Model.typesInScope, List.mem_append] at hn
  rcases hn with ((((hn | hn) | hn) | hn) | hn) | hn
  · exact .imported _ _ (mem_sortedUnique.2 (List.mem_append_left _ hn)) hp.imports
  · exact .imported _ _ (mem_sortedUnique.2 (List.mem_append_right _ hn)) hp.imports
  · obtain ⟨p, hmem, rfl⟩ := List.mem_map.1 hn
    exact .aliased _ (hp.aliases p hmem)
  · obtain ⟨⟨n', docs⟩, hmem, rfl⟩ := List.mem_map.1 hn
    obtain ⟨hmem, hc⟩ := List.mem_filter.1 hmem
    obtain ⟨t, ht, hcont⟩ := hp.declared n' docs hmem
    exact ((declaredItem_contains ht).1 hc).of_contains hcont
  · obtain ⟨n', hkey, rfl⟩ := List.mem_map.1 hn
    obtain ⟨⟨n'', fields⟩, hmem, rfl⟩ := List.mem_map.1 hkey
    obtain ⟨t, ht, hcont⟩ := hp.composites _ fields hmem
    exact (recordItem_contains ht).1.of_contains hcont
  · obtain ⟨e, he, hname⟩ := List.mem_filterMap.1 hn
    simp only [Endpoint.outputStructName?, Option.map_eq_some_iff] at hname
    obtain ⟨fields, hs, rfl⟩ := hname
    exact (outputStructItem_declares _ fields).of_contains (hp.outputStructs e he fields hs)

/-- The text written for a model defines the decoders of every name it writes with decoders. -/
theorem source_defines_decoders (h : source o m = .ok text) :
    ∀ n ∈ m.decodableTypes, DefinesDecoders text n := by
  have hp := source_pieces h
  intro n hn
  rcases List.mem_append.1 hn with hn | hn
  · obtain ⟨⟨n', docs⟩, hmem, hx⟩ := List.mem_filterMap.1 hn
    obtain ⟨t, ht, hcont⟩ := hp.declared n' docs hmem
    have hitem := declaredItem_contains ht
    refine DefinesDecoders.of_contains hcont ?_
    cases hget : m.catalog.records.get? n' with
    | some fields =>
      simp only [hget, Option.ite_none_right_eq_some, Option.some.injEq] at hx
      obtain ⟨hnest, rfl⟩ := hx
      exact hitem.2.1 fields hget hnest
    | none =>
      simp only [hget, Option.ite_none_right_eq_some, Option.some.injEq] at hx
      obtain ⟨henum, rfl⟩ := hx
      exact hitem.2.2 hget henum
  · obtain ⟨⟨n', fields⟩, hmem, rfl⟩ := List.mem_map.1 hn
    obtain ⟨hmem, hnest⟩ := List.mem_filter.1 hmem
    obtain ⟨t, ht, hcont⟩ := hp.composites n' fields hmem
    exact ((recordItem_contains ht).2 hnest).of_contains hcont

end Binding

end ContractAbi
