import Mathlib
import ContractAbi.Proofs.BindingText
import ContractAbi.Proofs.NestedRoundTrip

/-!
# References in the bindings

A bindings file refers to types in two ways. It spells types: the fields of structs, the
parameters and the results of methods. And it calls decoders: `X::decode_nested` inside the
nested decoder of a record, `X::top_decode` and `X::decode_nested` in the statements that decode
outputs.

Neither may dangle. A spelled type is built from Rust's own types and names the file brings into
scope (`SpelledFrom`); the names are those of `ResolvedType.typeNames`, and analysis declares
each of them (`Model.typesInScope`). A decoder call names a type whose item the file writes with
decoders (`Model.decodableTypes`). Records always get decoders, because their fields are checked
when they are declared; a composite gets them only when its members fit inside a record, and a
decoder call reaches a composite only through a check that asks exactly that. The statements
decoding outputs are read against a grammar of their shapes (`OutputDecodeText`), and the text
written declares every name in scope and the decoders of every name with decoders
(`Binding.source_declares_typesInScope`, `Binding.source_defines_decoders`).

Main statement: `analyzed_references_resolve`.
-/

namespace ContractAbi

open ResolvedType

/-! ## Spelled types -/

/-- The name a primitive is spelled by when it is not one of Rust's own types: the runtime's big
numbers and the aliases. -/
def Primitive.typeName? : Primitive → Option String
  | .bigUint => some "BigUint"
  | .bigInt => some "BigInt"
  | .address => some "Address"
  | .tokenIdentifier => some "TokenIdentifier"
  | .egldOrEsdtTokenIdentifier => some "EgldOrEsdtTokenIdentifier"
  | _ => none

/-- The names the spelling of a type refers to, beyond Rust's own types. -/
def ResolvedType.typeNames : ResolvedType → List String
  | .primitive p => p.typeName?.toList
  | .record n | .enum n => [Binding.typeIdent n]
  | .list i | .variadic i => typeNames i
  | .multiVariadic n _ | .multi n _ | .tuple n _ => [n]

/-- Rust's own types that bindings spell by name. -/
def Binding.rustOwnTypes : List String := ["bool", "u8", "u16", "u32", "u64", "String", "str"]

/-- Type text built from Rust's own types and the names `R`, by vectors, borrows, slices and
tuples. -/
inductive SpelledFrom (R : List String) : String → Prop
  | own {s : String} : s ∈ Binding.rustOwnTypes → SpelledFrom R s
  | name {n : String} : n ∈ R → SpelledFrom R n
  | vec {s : String} : SpelledFrom R s → SpelledFrom R ("Vec<" ++ s ++ ">")
  | borrow {s : String} : SpelledFrom R s → SpelledFrom R ("&" ++ s)
  | slice {s : String} : SpelledFrom R s → SpelledFrom R ("&[" ++ s ++ "]")
  | tuple {ss : List String} : (∀ s ∈ ss, SpelledFrom R s) →
      SpelledFrom R ("(" ++ ", ".intercalate ss ++ ")")

namespace SpelledFrom

variable {R R' : List String}

theorem mono (h : ∀ n ∈ R, n ∈ R') {s : String} (hs : SpelledFrom R s) : SpelledFrom R' s := by
  induction hs with
  | own hs => exact .own hs
  | name hn => exact .name (h _ hn)
  | vec _ ih => exact .vec ih
  | borrow _ ih => exact .borrow ih
  | slice _ ih => exact .slice ih
  | tuple _ ih => exact .tuple ih

theorem vec_u8 : SpelledFrom R "Vec<u8>" :=
  (by decide : "Vec<" ++ "u8" ++ ">" = "Vec<u8>") ▸ .vec (.own (by decide))

theorem borrow_str : SpelledFrom R "&str" :=
  (by decide : "&" ++ "str" = "&str") ▸ .borrow (.own (by decide))

theorem slice_u8 : SpelledFrom R "&[u8]" :=
  (by decide : "&[" ++ "u8" ++ "]" = "&[u8]") ▸ .slice (.own (by decide))

end SpelledFrom

theorem primitiveType_spelled (p : Primitive) :
    SpelledFrom p.typeName?.toList (Binding.primitiveType p) := by
  cases p with
  | bytes => exact .vec_u8
  | bigUint | bigInt | address | tokenIdentifier | egldOrEsdtTokenIdentifier =>
    exact .name (List.mem_singleton_self _)
  | _ => exact .own (by decide)

theorem rustType_spelled : ∀ t : ResolvedType, SpelledFrom t.typeNames (Binding.rustType t)
  | .primitive p => primitiveType_spelled p
  | .record _ | .enum _ | .multi _ _ | .tuple _ _ => .name (List.mem_singleton_self _)
  | .list i | .variadic i => .vec (rustType_spelled i)
  | .multiVariadic _ _ => .vec (.name (List.mem_singleton_self _))

theorem paramType_spelled : ∀ t : ResolvedType, SpelledFrom t.typeNames (Binding.paramType t)
  | .primitive p => by
    cases p with
    | bool | u8 | u16 | u32 | u64 => exact .own (by decide)
    | utf8String | tokenIdentifier | egldOrEsdtTokenIdentifier => exact .borrow_str
    | bytes => exact .slice_u8
    | bigUint | bigInt | address => exact .borrow (primitiveType_spelled _)
  | .enum _ => .name (List.mem_singleton_self _)
  | .record _ | .multi _ _ | .tuple _ _ => .borrow (.name (List.mem_singleton_self _))
  | .list i | .variadic i => .slice (rustType_spelled i)
  | .multiVariadic _ _ => .slice (.name (List.mem_singleton_self _))

/-- The names a method's result type refers to: a readonly endpoint's output types and its
output struct. -/
def Endpoint.returnTypeNames (e : Endpoint) : List String :=
  if e.isReadonly then e.outputs.flatMap (·.type.typeNames) ++ e.outputStructName?.toList else []

theorem returnType_spelled (e : Endpoint) :
    SpelledFrom e.returnTypeNames (Binding.returnType e) := by
  unfold Binding.returnType Endpoint.returnTypeNames
  cases hk : e.kind with
  | mutable => exact .own (by decide : "String" ∈ Binding.rustOwnTypes)
  | readonly =>
    have hread : e.isReadonly = true := by simp [Endpoint.isReadonly, hk]
    simp only [hread, if_true]
    have hout : ∀ o ∈ e.outputs, SpelledFrom
        (e.outputs.flatMap (·.type.typeNames) ++ e.outputStructName?.toList)
        (Binding.rustType o.type) := fun o ho =>
      (rustType_spelled o.type).mono fun n hn => List.mem_append_left _ (List.mem_flatMap.2 ⟨o, ho, hn⟩)
    split
    · exact (by decide : "(" ++ ", ".intercalate [] ++ ")" = "()") ▸ .tuple fun _ h => by cases h
    · rename_i single hsingle
      exact hout single (hsingle ▸ List.mem_singleton_self _)
    · split
      · rename_i hnamed
        refine .name (List.mem_append_right _ ?_)
        simp [Endpoint.outputStructName?, Endpoint.outputStruct?, hread, hnamed]
      · refine .tuple fun s hs => ?_
        obtain ⟨o, ho, rfl⟩ := List.mem_map.1 hs
        exact hout o ho

/-! ## Decoder calls -/

/-- The types whose nested decoder reading a value of this type calls. -/
def ResolvedType.nestedDecoders : ResolvedType → List String
  | .record n | .enum n => [Binding.typeIdent n]
  | .tuple n _ => [n]
  | .list i => nestedDecoders i
  | _ => []

/-- The type whose whole-slot decoder reading a value of this type calls. -/
def ResolvedType.topDecoders : ResolvedType → List String
  | .record n | .enum n => [Binding.typeIdent n]
  | .tuple n _ => [n]
  | _ => []

/-- The types whose decoders reading one member of a group of slots calls: a list of records is
read from its slot record by record, anything else by its whole-slot decoder. -/
def ResolvedType.memberDecoders : ResolvedType → List String
  | .list i => if i.isRecordLike then i.nestedDecoders else []
  | t => t.topDecoders

/-- The types whose decoders the statement decoding an output by this strategy calls. -/
def DecodeStrategy.decoderCalls (s : DecodeStrategy) (ty : ResolvedType) : List String :=
  match s, ty with
  | .scalar, _ => ty.topDecoders
  | .selfTerminating, .list i => i.nestedDecoders
  | .eachSlot, .list i | .eachSlot, .variadic i => i.topDecoders
  | .groups _, .multiVariadic _ ms | .group _, .multi _ ms => ms.flatMap memberDecoders
  | _, _ => []

mutual

/-- Text reading one nested value from decoder `d`, whose decoder calls name types in `R`. -/
inductive NestedReadText (R : List String) : String → String → Prop
  | primitive (d : String) (p : Primitive) :
      NestedReadText R d (d ++ ".read_" ++ Binding.primitiveSuffix p ++ "()")
  | call (d : String) {x : String} : x ∈ R →
      NestedReadText R d (x ++ "::decode_nested(" ++ d ++ ")")
  | list (d : String) {s : String} : NestedItemText R s →
      NestedReadText R d (d ++ ".read_list(" ++ s ++ ")")

/-- A callable reading one list element, whose decoder calls name types in `R`. -/
inductive NestedItemText (R : List String) : String → Prop
  | call {x : String} : x ∈ R → NestedItemText R (x ++ "::decode_nested")
  | closure {s : String} : NestedReadText R "item" s → NestedItemText R ("|item| " ++ s)

end

/-- A whole-slot decoder: the runtime's for a primitive, or that of a type in `R`. -/
inductive TopDecodeText (R : List String) : String → Prop
  | primitive (p : Primitive) : TopDecodeText R ("wire::top_decode_" ++ Binding.primitiveSuffix p)
  | call {x : String} : x ∈ R → TopDecodeText R (x ++ "::top_decode")

/-- The value of member `k` of a group of slots, whose decoder calls name types in `R`: records
read back to back from its slot, or a whole-slot decoder. -/
inductive GroupMemberText (R : List String) (k : Nat) : String → Prop
  | records {f : String} : NestedItemText R f →
      GroupMemberText R k ("wire::decode_self_terminating(&group[" ++ toString k ++ "], " ++ f ++ ")")
  | slot {f : String} : TopDecodeText R f → GroupMemberText R k (f ++ "(&group[" ++ toString k ++ "])?")

/-- The fields `var{k}: value` of a group's constructor, numbered from `k`. -/
inductive GroupFieldsText (R : List String) : Nat → List String → Prop
  | nil (k : Nat) : GroupFieldsText R k []
  | cons {k : Nat} {v : String} {fs : List String} : GroupMemberText R k v →
      GroupFieldsText R (k + 1) fs → GroupFieldsText R k (("var" ++ toString k ++ ": " ++ v) :: fs)

/-- The value of one output read from the returned slots, whose decoder calls name types in `R`. -/
inductive OutputValueText (R : List String) : String → Prop
  | scalar (slot : String) {f : String} : TopDecodeText R f →
      OutputValueText R ("data.scalar(" ++ slot ++ ", " ++ f ++ ")?")
  | selfTerminating (slot : String) {f : String} : NestedItemText R f →
      OutputValueText R ("data.self_terminating(" ++ slot ++ ", " ++ f ++ ")")
  | eachSlot (slot : String) {f : String} : TopDecodeText R f →
      OutputValueText R ("data.each_slot(" ++ slot ++ ", " ++ f ++ ")")
  | groups (slot width n : String) {fs : List String} : GroupFieldsText R 0 fs →
      OutputValueText R ("data.groups(" ++ slot ++ ", " ++ width ++ ", |group| Ok(" ++
        (n ++ " \x7b " ++ ", ".intercalate fs ++ " \x7d") ++ "))")
  | group (slot width n : String) {fs : List String} : GroupFieldsText R 0 fs →
      OutputValueText R ("data.group(" ++ slot ++ ", " ++ width ++ ", |group| Ok(" ++
        (n ++ " \x7b " ++ ", ".intercalate fs ++ " \x7d") ++ "))?")

/-- The statement `let out{index} = value;` decoding one output, whose decoder calls name types in
`R`. -/
inductive OutputDecodeText (R : List String) : String → Prop
  | mk (level index : Nat) {v : String} : OutputValueText R v →
      OutputDecodeText R ("".pushn ' ' level ++ "let out" ++ toString index ++ " = " ++ v ++ ";\n")

/-- A value that fits inside a record is read by text that calls only its nested decoders. -/
theorem nestedRead_text {R : List String} : ∀ t : ResolvedType, Shape.checkNested t = .ok () →
    (∀ x ∈ t.nestedDecoders, x ∈ R) →
    (∀ d, NestedReadText R d (Binding.nestedRead d t)) ∧ NestedItemText R (Binding.nestedItem t)
  | .primitive p, _, _ => by
    refine ⟨fun d => ?_, ?_⟩
    · simp only [Binding.nestedRead]
      exact .primitive d p
    · simp only [Binding.nestedItem, Binding.nestedRead]
      exact .closure (.primitive _ p)
  | .record n, _, hR | .enum n, _, hR | .tuple n _, _, hR => by
    have hn := hR _ (List.mem_singleton_self _)
    refine ⟨fun d => ?_, ?_⟩
    · simp only [Binding.nestedRead]
      exact .call d hn
    · simp only [Binding.nestedItem]
      exact .call hn
  | .list i, h, hR => by
    have hi := (nestedRead_text i (Shape.checkNested_list h) hR).2
    have hread : ∀ d, NestedReadText R d (Binding.nestedRead d (.list i)) := fun d => by
      simp only [Binding.nestedRead]
      exact .list d hi
    refine ⟨hread, ?_⟩
    simp only [Binding.nestedItem]
    exact .closure (hread "item")
  | .variadic _, h, _ | .multiVariadic _ _, h, _ | .multi _ _, h, _ => by cases h

theorem topDecodeFn_text {R : List String} {t : ResolvedType} {s : String}
    (h : Binding.topDecodeFn t = .ok s) (hR : ∀ x ∈ t.topDecoders, x ∈ R) : TopDecodeText R s := by
  cases t <;> simp only [Binding.topDecodeFn, Except.ok.injEq, reduceCtorEq] at h <;> subst h
  · exact .primitive _
  all_goals exact .call (hR _ (List.mem_singleton_self _))

theorem groupMember_text {R : List String} {t : ResolvedType} {k : Nat} {s : String}
    (h : Binding.groupMember k t = .ok s) (ht : Shape.checkGroupMember t = .ok ())
    (hR : ∀ x ∈ t.memberDecoders, x ∈ R) : GroupMemberText R k s := by
  rcases Shape.checkGroupMember_cases ht with ⟨i, rfl, hi, hn⟩ | ⟨hnl, -⟩
  · rw [Binding.groupMember, if_pos hi, Except.ok.injEq] at h
    have hcalls : (ResolvedType.list i).memberDecoders = i.nestedDecoders := by
      simp [ResolvedType.memberDecoders, hi]
    subst h
    exact .records (nestedRead_text i hn (hcalls ▸ hR)).2
  · rw [Binding.groupMember.eq_2 k t hnl] at h
    obtain ⟨f, hf, rfl⟩ := Except.map_eq_ok_iff.1 h
    have hcalls : t.memberDecoders = t.topDecoders := by
      cases t with
      | list i => exact absurd rfl (hnl i)
      | _ => rfl
    exact .slot (topDecodeFn_text hf (hcalls ▸ hR))

theorem groupFields_text {R : List String} : ∀ {ms : List ResolvedType} {k : Nat} {fs : List String},
    Binding.groupFields k ms = .ok fs → (∀ m ∈ ms, Shape.checkGroupMember m = .ok ()) →
      (∀ x ∈ ms.flatMap ResolvedType.memberDecoders, x ∈ R) → GroupFieldsText R k fs
  | [], k, fs, h, _, _ => by
    cases h
    exact .nil k
  | m :: ms, k, fs, h, hc, hR => by
    unfold Binding.groupFields at h
    obtain ⟨v, hv, h⟩ := bind_eq_ok h
    obtain ⟨vs, hvs, h⟩ := bind_eq_ok h
    cases h
    rw [List.flatMap_cons] at hR
    exact .cons (groupMember_text hv (hc m List.mem_cons_self) fun x hx => hR x (List.mem_append_left _ hx))
      (groupFields_text hvs (fun m' hm' => hc m' (List.mem_cons_of_mem _ hm'))
        fun x hx => hR x (List.mem_append_right _ hx))

/-- The statement decoding an output by the strategy selection picks has the shape of that
strategy, and its decoder calls name types in `R` when the strategy's calls do. -/
theorem outputDecode_text {R : List String} {ty : ResolvedType} {s : DecodeStrategy}
    (hs : DecodeStrategy.select ty = .ok s) (hR : ∀ n ∈ s.decoderCalls ty, n ∈ R)
    {index firstSlot level : Nat} {code : String}
    (h : Binding.outputDecode index ty ⟨s, firstSlot⟩ level = .ok code) : OutputDecodeText R code := by
  have hstmt : ∀ x : Except ConversionError String, (do
      let value ← x
      pure ("".pushn ' ' level ++ "let out" ++ toString index ++ " = " ++ value ++ ";\n")) = .ok code →
      (∀ v, x = .ok v → OutputValueText R v) → OutputDecodeText R code := by
    intro x hx hv
    obtain ⟨v, hxv, hcode⟩ := bind_eq_ok hx
    cases hcode
    exact .mk level index (hv v hxv)
  rcases DecodeStrategy.select_ok hs with ⟨i, rfl, -, hn, rfl⟩ | ⟨i, hty, ht, rfl⟩ |
    ⟨n, ms, rfl, hms, rfl⟩ | ⟨n, ms, rfl, hms, rfl⟩ | ⟨ht, rfl⟩
  · simp only [Binding.outputDecode] at h
    refine hstmt _ h fun v hv => ?_
    cases hv
    exact .selfTerminating _ (nestedRead_text i hn hR).2
  · rcases hty with rfl | rfl <;>
    · simp only [Binding.outputDecode] at h
      refine hstmt _ h fun v hv => ?_
      obtain ⟨f, hf, rfl⟩ := Except.map_eq_ok_iff.1 hv
      exact .eachSlot _ (topDecodeFn_text hf hR)
  · simp only [Binding.outputDecode] at h
    refine hstmt _ h fun v hv => ?_
    obtain ⟨g, hg, rfl⟩ := Except.map_eq_ok_iff.1 hv
    obtain ⟨fs, hfs, rfl⟩ := Except.map_eq_ok_iff.1 hg
    exact .groups _ _ n (groupFields_text hfs (Shape.checkGroupMembers_ok hms) hR)
  · simp only [Binding.outputDecode] at h
    refine hstmt _ h fun v hv => ?_
    obtain ⟨g, hg, rfl⟩ := Except.map_eq_ok_iff.1 hv
    obtain ⟨fs, hfs, rfl⟩ := Except.map_eq_ok_iff.1 hg
    exact .group _ _ n (groupFields_text hfs (Shape.checkGroupMembers_ok hms) hR)
  · simp only [Binding.outputDecode] at h
    refine hstmt _ h fun v hv => ?_
    obtain ⟨f, hf, rfl⟩ := Except.map_eq_ok_iff.1 hv
    exact .scalar _ (topDecodeFn_text hf hR)

/-- No reference in a model's bindings dangles: spelled types use names in scope, and nested
decoders and output statements call only written decoders. -/
structure Model.ReferencesResolve (m : Model) : Prop where
  fields : ∀ t ∈ m.usedTypes, SpelledFrom m.typesInScope (Binding.rustType t)
  params : ∀ e ∈ m.endpoints, ∀ i ∈ e.inputs,
    SpelledFrom m.typesInScope (Binding.paramType i.type)
  returns : ∀ e ∈ m.endpoints, SpelledFrom m.typesInScope (Binding.returnType e)
  nested : ∀ e ∈ m.catalog.records ++ m.catalog.composites, Binding.fieldsNest e.2 = true →
    ∀ f ∈ e.2, NestedReadText m.decodableTypes "decoder" (Binding.nestedRead "decoder" f.type)
  outputs : ∀ e ∈ m.endpoints, e.kind = .readonly → ∀ code, Binding.outputDecoders e = .ok code →
    ∃ stmts, code = String.join stmts ∧ ∀ s ∈ stmts, OutputDecodeText m.decodableTypes s

/-! ## From what is written to what is referenced -/

/-- What a model's bindings write for the types they use: names in scope, and decoders for
records, enums and composites that fit inside a record. -/
structure Model.WritesUsed (m : Model) : Prop where
  primitive : ∀ p, Mentions m.usedTypes (.primitive p) →
    ∀ n ∈ p.typeName?.toList, n ∈ m.typesInScope
  record : ∀ n, Mentions m.usedTypes (.record n) →
    Binding.typeIdent n ∈ m.writtenTypes ∧ Binding.typeIdent n ∈ m.decodableTypes
  enum : ∀ n, Mentions m.usedTypes (.enum n) →
    Binding.typeIdent n ∈ m.writtenTypes ∧ Binding.typeIdent n ∈ m.decodableTypes
  composite : ∀ t n ms, Mentions m.usedTypes t → t.composite? = some (n, ms) →
    n ∈ m.catalog.composites.keys.map Binding.typeIdent ∧
      ((∀ x ∈ ms, Shape.checkNested x = .ok ()) → n ∈ m.decodableTypes)

theorem Mentions.of_list {T : List ResolvedType} {i : ResolvedType} (h : Mentions T (.list i)) :
    Mentions T i :=
  h.of_occurs (.part (List.mem_singleton_self i) .refl)

theorem Mentions.of_variadic {T : List ResolvedType} {i : ResolvedType}
    (h : Mentions T (.variadic i)) : Mentions T i :=
  h.of_occurs (.part (List.mem_singleton_self i) .refl)

/-- A type that fills a whole slot calls the decoder it would call inside a record. -/
theorem topDecoders_of_checkTopLevel {t : ResolvedType} (h : Shape.checkTopLevel t = .ok ()) :
    t.topDecoders = t.nestedDecoders ∧ Shape.checkNested t = .ok () := by
  rcases Shape.checkTopLevel_cases h with ⟨p, rfl⟩ | ⟨n, rfl⟩ | ⟨n, rfl⟩ | ⟨n, ms, rfl, hn⟩
  · exact ⟨rfl, rfl⟩
  · exact ⟨rfl, rfl⟩
  · exact ⟨rfl, rfl⟩
  · exact ⟨rfl, hn⟩

theorem Model.mem_typesInScope_of_written {m : Model} {n : String} (h : n ∈ m.writtenTypes) :
    n ∈ m.typesInScope := by
  simp only [Model.typesInScope, List.mem_append]
  exact .inl (.inl (.inr h))

theorem Model.mem_typesInScope_of_import {m : Model} {n : String} (h : n ∈ m.imports) :
    n ∈ m.typesInScope := by
  simp only [Model.typesInScope, List.mem_append]
  exact .inl (.inl (.inl (.inl (.inr h))))

theorem Model.mem_typesInScope_of_alias {m : Model} {p : Primitive} (h : p ∈ m.customTypes) :
    Binding.primitiveType p ∈ m.typesInScope := by
  simp only [Model.typesInScope, List.mem_append]
  exact .inl (.inl (.inl (.inr (List.mem_map_of_mem h))))

theorem Model.mem_typesInScope_of_composite {m : Model} {n : String}
    (h : n ∈ m.catalog.composites.keys.map Binding.typeIdent) : n ∈ m.typesInScope := by
  simp only [Model.typesInScope, List.mem_append]
  exact .inl (.inr h)

namespace Model.WritesUsed

variable {m : Model} (hw : m.WritesUsed)
include hw

theorem typeNames : ∀ t, Mentions m.usedTypes t → ∀ n ∈ t.typeNames, n ∈ m.typesInScope
  | .primitive p, ht, n, hn => hw.primitive p ht n hn
  | .record r, ht, _, hn => List.mem_singleton.1 hn ▸ mem_typesInScope_of_written (hw.record r ht).1
  | .enum r, ht, _, hn => List.mem_singleton.1 hn ▸ mem_typesInScope_of_written (hw.enum r ht).1
  | .list i, ht, n, hn => typeNames i ht.of_list n hn
  | .variadic i, ht, n, hn => typeNames i ht.of_variadic n hn
  | .multiVariadic c ms, ht, _, hn | .multi c ms, ht, _, hn | .tuple c ms, ht, _, hn =>
    List.mem_singleton.1 hn ▸ mem_typesInScope_of_composite (hw.composite _ c ms ht rfl).1

theorem nestedDecoders : ∀ t, Mentions m.usedTypes t → Shape.checkNested t = .ok () →
    ∀ n ∈ t.nestedDecoders, n ∈ m.decodableTypes
  | .record r, ht, _, n, hn => List.mem_singleton.1 hn ▸ (hw.record r ht).2
  | .enum r, ht, _, n, hn => List.mem_singleton.1 hn ▸ (hw.enum r ht).2
  | .tuple c ms, ht, hc, n, hn =>
    List.mem_singleton.1 hn ▸ (hw.composite _ c ms ht rfl).2 (Shape.checkNestedAll_ok hc)
  | .list i, ht, hc, n, hn => nestedDecoders i ht.of_list (Shape.checkNested_list hc) n hn
  | .primitive _, _, _, _, hn | .variadic _, _, _, _, hn | .multiVariadic _ _, _, _, _, hn
  | .multi _ _, _, _, _, hn => by cases hn

theorem topDecoders {t : ResolvedType} (ht : Mentions m.usedTypes t)
    (hc : Shape.checkTopLevel t = .ok ()) : ∀ n ∈ t.topDecoders, n ∈ m.decodableTypes := by
  obtain ⟨heq, hn⟩ := topDecoders_of_checkTopLevel hc
  rw [heq]
  exact hw.nestedDecoders t ht hn

theorem memberDecoders {t : ResolvedType} (ht : Mentions m.usedTypes t)
    (hc : Shape.checkGroupMember t = .ok ()) : ∀ n ∈ t.memberDecoders, n ∈ m.decodableTypes := by
  rcases Shape.checkGroupMember_cases hc with ⟨i, rfl, hi, hn⟩ | ⟨hnl, htop⟩
  · simp only [ResolvedType.memberDecoders, hi, if_true]
    exact hw.nestedDecoders i ht.of_list hn
  · have hcalls : t.memberDecoders = t.topDecoders := by
      cases t with
      | list i => exact absurd rfl (hnl i)
      | _ => rfl
    rw [hcalls]
    exact hw.topDecoders ht htop

/-- The statement decoding an output by the strategy selection picks calls only written
decoders. -/
theorem decoderCalls {ty : ResolvedType} {s : DecodeStrategy} (ht : Mentions m.usedTypes ty)
    (hs : DecodeStrategy.select ty = .ok s) : ∀ n ∈ s.decoderCalls ty, n ∈ m.decodableTypes := by
  rcases DecodeStrategy.select_ok hs with ⟨i, rfl, -, hn, rfl⟩ | ⟨i, hi, htop, rfl⟩ |
    ⟨c, ms, rfl, hms, rfl⟩ | ⟨c, ms, rfl, hms, rfl⟩ | ⟨htop, rfl⟩
  · exact hw.nestedDecoders i ht.of_list hn
  · rcases hi with rfl | rfl
    · exact hw.topDecoders ht.of_list htop
    · exact hw.topDecoders ht.of_variadic htop
  · intro n hn
    obtain ⟨x, hx, hn⟩ := List.mem_flatMap.1 hn
    exact hw.memberDecoders (ht.of_occurs (.part hx .refl)) (Shape.checkGroupMembers_ok hms x hx) n hn
  · intro n hn
    obtain ⟨x, hx, hn⟩ := List.mem_flatMap.1 hn
    exact hw.memberDecoders (ht.of_occurs (.part hx .refl)) (Shape.checkGroupMembers_ok hms x hx) n hn
  · exact hw.topDecoders ht htop

/-- Writing what the used types need, with every readonly endpoint planned by selection, leaves
no reference dangling. -/
theorem referencesResolve (hplan : ∀ e ∈ m.endpoints, e.Planned) : m.ReferencesResolve := by
  have houtput : ∀ e ∈ m.endpoints, e.isReadonly = true → ∀ o ∈ e.outputs,
      Mentions m.usedTypes o.type := fun e he hr o ho =>
    mentions_of_mem (Model.mem_usedTypes_of_output he hr ho)
  refine ⟨fun t ht => (rustType_spelled t).mono (hw.typeNames t (mentions_of_mem ht)),
    fun e he i hi => ?_, fun e he => (returnType_spelled e).mono fun n hn => ?_,
    fun e he hnest f hf => ?_, fun e he => ?_⟩
  · exact (paramType_spelled i.type).mono
      (hw.typeNames i.type (mentions_of_mem (Model.mem_usedTypes_of_input he hi)))
  · unfold Endpoint.returnTypeNames at hn
    split at hn
    · rename_i hr
      rcases List.mem_append.1 hn with hn | hn
      · obtain ⟨o, ho, hn⟩ := List.mem_flatMap.1 hn
        exact hw.typeNames o.type (houtput e he hr o ho) n hn
      · simp only [Model.typesInScope, List.mem_append]
        exact .inr (List.mem_filterMap.2 ⟨e, he, Option.mem_toList.1 hn⟩)
    · cases hn
  · have hcheck := Binding.fieldsNest_iff.1 hnest f hf
    have hused := mentions_of_mem (Model.mem_usedTypes_of_field he hf)
    exact (nestedRead_text f.type hcheck (hw.nestedDecoders f.type hused hcheck)).1 "decoder"
  · intro hk code hcode
    have hr : e.isReadonly = true := by simp [Endpoint.isReadonly, hk]
    obtain ⟨stmts, rfl, hstmts, -⟩ := Binding.joinMapM_eq_ok hcode
    refine ⟨stmts, rfl, fun s hs => ?_⟩
    obtain ⟨⟨i, o, ⟨strategy, slot⟩⟩, hop, hs⟩ := hstmts s hs
    have hop := (List.of_mem_zip hop).2
    have hmem : (o.type, (⟨strategy, slot⟩ : OutputPlan)) ∈ (e.outputs.map (·.type)).zip e.plans := by
      rw [List.zip_map_left]
      exact List.mem_map_of_mem (f := Prod.map (·.type) id) hop
    have hsel := planFrom_select (hplan e he hk) o.type _ hmem
    exact outputDecode_text hsel (hw.decoderCalls (houtput e he hr o (List.of_mem_zip hop).1) hsel) hs

end Model.WritesUsed

/-! ## What analysis writes -/

/-- Resolving a struct's fields checks that each fits inside a record. -/
theorem resolveFields_nest (doc : AbiDocument) (owner : String) :
    ∀ fields : List StructField, Triple (fun _ : Context => True) (resolveFields doc owner fields)
      fun fs _ => Binding.fieldsNest fs = true
  | [] => Triple.pure fun _ _ => rfl
  | f :: fs => by
    refine Triple.bind (fun _ _ _ _ _ => trivial : Triple (fun _ => True) (resolve doc f.typeExpr)
      fun _ _ => True) fun ty => ?_
    split
    · exact Triple.bind (Triple.throw (Q := fun _ _ => False)) fun _ _ _ _ h => h.elim
    · rename_i hty
      refine Triple.bind (resolveFields_nest doc owner fs) fun r => Triple.pure fun _ hr => ?_
      rw [Binding.fieldsNest_iff] at hr ⊢
      intro g hg
      rcases List.mem_cons.1 hg with rfl | hg
      · exact hty
      · exact hr g hg

/-- Declaring named types keeps every record's fields fitting inside a record. -/
theorem declareAll_nest (doc : AbiDocument) : ∀ rest : OrderedMap TypeDefinition,
    Triple (fun s : Declarations × Context => ∀ e ∈ s.1.records, Binding.fieldsNest e.2 = true)
      (declareAll doc rest) fun _ s => ∀ e ∈ s.1.records, Binding.fieldsNest e.2 = true
  | [] => Triple.pure fun _ h => h
  | (name, .struct ds fields) :: rest => by
    intro s u s' hs h
    refine (Triple.bind (Declare.lift_triple (resolveFields_nest doc name fields) s.1)
      fun resolved => Triple.bind (Triple.modify fun s₁ hs₁ => ?_)
        fun _ => declareAll_nest doc rest) s u s' ⟨rfl, trivial⟩ h
    obtain ⟨d₁, c₁⟩ := s₁
    obtain ⟨rfl, hnest⟩ := hs₁
    intro e he
    rcases OrderedMap.mem_insert he with he | rfl
    · exact hs e he
    · exact hnest
  | (name, .enum ds variants) :: rest =>
    Triple.bind (liftExcept_ok _) fun _ => Triple.bind (Triple.modify fun _ hs => hs.1)
      fun _ => declareAll_nest doc rest

/-- The records of an analyzed model all get decoders. -/
theorem analyze_records_nest {d : AbiDocument} {pol : Policy} {m : Model}
    (h : analyze d pol = .ok m) : ∀ e ∈ m.catalog.records, Binding.fieldsNest e.2 = true := by
  obtain ⟨decls, ctx, p, hdecl, -, rfl⟩ := analyze_ok h
  exact declareTypes_of_declareAll (declareAll_nest d d.types) _ () _ (fun _ he => by cases he)
    hdecl

section Declared

variable {T : List ResolvedType} {c : Catalog} {e : String}

mutual

/-- A type whose records, enums and tuples, at any depth, are declared passes the declaration
check. -/
theorem checkDeclared_of_mentions
    (hrec : ∀ n, Mentions T (.record n) → c.records.contains n = true)
    (henum : ∀ n, Mentions T (.enum n) → c.enums.contains n = true)
    (hcomp : ∀ n ms, Mentions T (.tuple n ms) → c.composites.contains n = true) :
    ∀ t, Mentions T t → Wire.checkDeclared c e t = .ok ()
  | .primitive _, _ => rfl
  | .record n, ht => by simp [Wire.checkDeclared, hrec n ht]
  | .enum n, ht => by simp [Wire.checkDeclared, henum n ht]
  | .list i, ht | .variadic i, ht => by
    unfold Wire.checkDeclared
    exact checkDeclared_of_mentions hrec henum hcomp i
      (ht.of_occurs (.part (List.mem_singleton_self i) .refl))
  | .tuple n ms, ht => by
    unfold Wire.checkDeclared
    rw [if_pos (hcomp n ms ht)]
    exact checkMembers_of_mentions hrec henum hcomp ms fun m hm => ht.of_occurs (.part hm .refl)
  | .multiVariadic _ ms, ht | .multi _ ms, ht => by
    unfold Wire.checkDeclared
    exact checkMembers_of_mentions hrec henum hcomp ms fun m hm => ht.of_occurs (.part hm .refl)

theorem checkMembers_of_mentions
    (hrec : ∀ n, Mentions T (.record n) → c.records.contains n = true)
    (henum : ∀ n, Mentions T (.enum n) → c.enums.contains n = true)
    (hcomp : ∀ n ms, Mentions T (.tuple n ms) → c.composites.contains n = true) :
    ∀ ms, (∀ m ∈ ms, Mentions T m) → Wire.checkDeclared.checkMembers c e ms = .ok ()
  | [], _ => rfl
  | m :: ms, h => by
    unfold Wire.checkDeclared.checkMembers
    rw [checkDeclared_of_mentions hrec henum hcomp m (h m List.mem_cons_self)]
    exact checkMembers_of_mentions hrec henum hcomp ms fun m' hm' => h m' (List.mem_cons_of_mem _ hm')

end

end Declared

/-- The catalog of an analyzed model is well formed for decoding: every record field fits inside
a record and names declared types only. -/
theorem analyze_wellFormed {d : AbiDocument} {pol : Policy} {m : Model} (hd : d.types.keys.Nodup)
    (h : analyze d pol = .ok m) : Wire.WellFormed m.catalog := by
  have hnest := analyze_records_nest h
  obtain ⟨decls, ctx, p, -, rfl, hD, hC⟩ := analyze_closed hd h
  have hrec : ∀ n, Mentions (p.model d decls).usedTypes (.record n) →
      (p.model d decls).catalog.records.contains n = true := fun n hn => by
    obtain ⟨ds, fs, hget⟩ := hC.record_declared n hn
    exact OrderedMap.contains_iff.2 (hD.mem_records_keys hget)
  have henum : ∀ n, Mentions (p.model d decls).usedTypes (.enum n) →
      (p.model d decls).catalog.enums.contains n = true := fun n hn => by
    obtain ⟨ds, vs, hget⟩ := hC.enum_declared n hn
    exact OrderedMap.contains_iff.2 (hD.mem_enums_keys hget)
  have hcomp : ∀ n ms, Mentions (p.model d decls).usedTypes (.tuple n ms) →
      (p.model d decls).catalog.composites.contains n = true := fun n ms hn =>
    OrderedMap.contains_iff.2 (List.mem_map_of_mem (f := Prod.fst) (hC.registered _ n ms hn rfl))
  intro r hr f hf
  have hused := mentions_of_mem (Model.mem_usedTypes_of_field (List.mem_append_left _ hr) hf)
  exact ⟨Binding.fieldsNest_iff.1 (hnest r hr) f hf,
    fun _ => checkDeclared_of_mentions hrec henum hcomp _ hused⟩

theorem analyze_planned {d : AbiDocument} {pol : Policy} {m : Model}
    (h : analyze d pol = .ok m) : ∀ e ∈ m.endpoints, e.Planned := by
  obtain ⟨decls, ctx, p, -, hfold, rfl⟩ := analyze_ok h
  exact Progress.foldlM_inv (fun q => ∀ e ∈ q.endpoints, e.Planned)
    (fun hq hs => Progress.step_planned hq hs) (fun _ he => by cases he) hfold

/-- A name the document declares as an enum is no record. -/
theorem Declared.not_mem_records_keys {doc : AbiDocument} {s : Declarations × Context}
    (hD : Declared doc doc.types s) (hd : doc.types.keys.Nodup) {n : String} {ds : List String}
    {vs : List EnumVariant} (h : doc.types.get? n = some (.enum ds vs)) :
    n ∉ s.1.records.keys := by
  rw [hD.records_keys]
  intro hn
  obtain ⟨⟨n', t⟩, hmem, rfl⟩ := List.mem_map.1 hn
  obtain ⟨hmem, hstruct⟩ := List.mem_filter.1 hmem
  rw [OrderedMap.get?_eq_some_of_mem hd hmem, Option.some.injEq] at h
  subst h
  cases hstruct

theorem OrderedMap.get?_eq_none_of_not_mem {α : Type} {m : OrderedMap α} {k : String}
    (h : k ∉ m.keys) : m.get? k = none := by
  cases hget : m.get? k with
  | none => rfl
  | some v => exact absurd (List.mem_map_of_mem (f := Prod.fst) (OrderedMap.mem_of_get? hget)) h

section Written

variable {d : AbiDocument} {decls : Declarations} {p : Progress} {n : String} {v : TypeDefinition}

theorem Progress.mem_typeDocs (hmem : (n, v) ∈ d.types) :
    (n, v.docs) ∈ (p.model d decls).typeDocs :=
  List.mem_map.2 ⟨(n, v), hmem, rfl⟩

/-- A declared type the catalog has as a record or an enum is written. -/
theorem Progress.mem_writtenTypes (hmem : (n, v) ∈ d.types)
    (hc : (decls.records.contains n || decls.enums.contains n) = true) :
    Binding.typeIdent n ∈ (p.model d decls).writtenTypes :=
  List.mem_map.2 ⟨(n, v.docs), List.mem_filter.2 ⟨Progress.mem_typeDocs hmem, hc⟩, rfl⟩

/-- A declared record whose fields fit inside a record is written with decoders. -/
theorem Progress.mem_decodableTypes_of_record {fs : List Field} (hmem : (n, v) ∈ d.types)
    (hget : decls.records.get? n = some fs) (hfs : Binding.fieldsNest fs = true) :
    Binding.typeIdent n ∈ (p.model d decls).decodableTypes := by
  refine List.mem_append_left _ (List.mem_filterMap.2 ⟨(n, v.docs), Progress.mem_typeDocs hmem, ?_⟩)
  simp only [Progress.model_catalog, Declarations.catalog, hget, hfs, if_true]

/-- A declared enum is written with decoders. -/
theorem Progress.mem_decodableTypes_of_enum (hmem : (n, v) ∈ d.types)
    (hget : decls.records.get? n = none) (henum : decls.enums.contains n = true) :
    Binding.typeIdent n ∈ (p.model d decls).decodableTypes := by
  refine List.mem_append_left _ (List.mem_filterMap.2 ⟨(n, v.docs), Progress.mem_typeDocs hmem, ?_⟩)
  simp only [Progress.model_catalog, Declarations.catalog, hget, henum, if_true]

end Written

/-- Analysis writes what the types of its model need. The named types of a document are a map,
so their names are distinct. -/
theorem analyze_writesUsed {d : AbiDocument} {pol : Policy} {m : Model} (hd : d.types.keys.Nodup)
    (h : analyze d pol = .ok m) : m.WritesUsed := by
  have hsynthetic := analyze_composites_synthetic h
  have hnest := analyze_records_nest h
  obtain ⟨decls, ctx, p, -, rfl, hD, hC⟩ := analyze_closed hd h
  refine ⟨fun q hq s hs => ?_, fun n hn => ?_, fun n hn => ?_, fun t n ms ht hc => ?_⟩
  · have halias : q.isCustomAlias = true → Binding.primitiveType q ∈ (p.model d decls).typesInScope :=
      fun ha => Model.mem_typesInScope_of_alias ((hC.mem_customTypes q).2 ⟨ha, hq⟩)
    cases q <;> simp only [Primitive.typeName?, Option.toList, List.mem_singleton,
      List.not_mem_nil] at hs <;> subst hs
    · exact Model.mem_typesInScope_of_import
        ((Context.mem_imports _ _).2 (.inr ⟨rfl, hC.usesBigUint.2 hq⟩))
    · exact Model.mem_typesInScope_of_import
        ((Context.mem_imports _ _).2 (.inl ⟨rfl, hC.usesBigInt.2 hq⟩))
    all_goals exact halias rfl
  · obtain ⟨ds, fs, hget⟩ := hC.record_declared n hn
    have hkey := OrderedMap.contains_iff.2 (hD.mem_records_keys hget)
    obtain ⟨fs', hfs'⟩ := OrderedMap.exists_get?_of_contains hkey
    have hmem := OrderedMap.mem_of_get? hget
    refine ⟨Progress.mem_writtenTypes hmem (by rw [hkey, Bool.true_or]), ?_⟩
    exact Progress.mem_decodableTypes_of_record hmem hfs' (hnest _ (OrderedMap.mem_of_get? hfs'))
  · obtain ⟨ds, vs, hget⟩ := hC.enum_declared n hn
    have hkey := OrderedMap.contains_iff.2 (hD.mem_enums_keys hget)
    have hnone := OrderedMap.get?_eq_none_of_not_mem (hD.not_mem_records_keys hd hget)
    have hmem := OrderedMap.mem_of_get? hget
    exact ⟨Progress.mem_writtenTypes hmem (by rw [hkey, Bool.or_true]),
      Progress.mem_decodableTypes_of_enum hmem hnone hkey⟩
  · have hreg := hC.registered t n ms ht hc
    have hkey : n ∈ p.context.composites.entries.keys := List.mem_map_of_mem (f := Prod.fst) hreg
    have hid : Binding.typeIdent n = n := by
      obtain ⟨i, rfl⟩ := hsynthetic n hkey
      exact Registry.typeIdent_nameAt i
    refine ⟨hid ▸ List.mem_map_of_mem hkey, fun hms => ?_⟩
    refine List.mem_append_right _ (List.mem_map.2 ⟨(n, compositeFields ms), ?_, hid⟩)
    refine List.mem_filter.2 ⟨hreg, Binding.fieldsNest_iff.2 fun f hf => hms f.type ?_⟩
    rw [← compositeFields_types ms]
    exact List.mem_map_of_mem hf

/-- The bindings of an analyzed model refer only to what they declare, and their text declares
every name in scope and the decoders of every name with decoders. -/
theorem analyzed_references_resolve {d : AbiDocument} {pol : Policy} {m : Model}
    (hd : d.types.keys.Nodup) (h : analyze d pol = .ok m) :
    m.ReferencesResolve ∧ ∀ o text, Binding.source o m = .ok text →
      (∀ n ∈ m.typesInScope, Binding.DeclaresType text n) ∧
        ∀ n ∈ m.decodableTypes, Binding.DefinesDecoders text n :=
  ⟨(analyze_writesUsed hd h).referencesResolve (analyze_planned h), fun _ _ hs =>
    ⟨Binding.source_declares_typesInScope hs, Binding.source_defines_decoders hs⟩⟩

theorem pairContract_references_resolve :
    pairContract.types.keys.Nodup ∧ ∃ m, analyze pairContract .strict = .ok m ∧
      m.ReferencesResolve ∧ ∀ o text, Binding.source o m = .ok text →
        (∀ n ∈ m.typesInScope, Binding.DeclaresType text n) ∧
          ∀ n ∈ m.decodableTypes, Binding.DefinesDecoders text n := by
  have hd : pairContract.types.keys.Nodup := by decide
  obtain ⟨m, hm⟩ : ∃ m, analyze pairContract .strict = .ok m := ⟨_, rfl⟩
  exact ⟨hd, m, hm, analyzed_references_resolve hd hm⟩

end ContractAbi
