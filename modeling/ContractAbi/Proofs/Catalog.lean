import ContractAbi.Proofs.Registry
import ContractAbi.Proofs.Transactional

/-!
# The catalog is closed

The bindings of a model declare one item per record, enum and composite of its catalog, one
alias per custom primitive, and import the big-number runtime items. This module shows that the
analysis declares exactly what the bindings use: every composite reference in a record field, a
composite member, an endpoint input or a decoded output names its own entry of the catalog, every
entry is so referenced, every named type used is declared, and the aliases and imports are those
of the primitives used.

The invariant `Closed` relates a resolution context to the list of types resolved so far.
Resolution extends that list by the type it answers, one node at a time (`resolveWith_closed`);
mutable outputs are resolved in a scratch context that is thrown away, and a failing endpoint
keeps the context it started from, so the invariant follows the analysis over the named types
and then over the endpoints.

Main statement: `analyze_catalog_closed`.
-/

namespace ContractAbi

namespace ResolvedType

/-- The types a type is built from, one level down. -/
def parts : ResolvedType → List ResolvedType
  | .list i | .variadic i => [i]
  | .multiVariadic _ ms | .multi _ ms | .tuple _ ms => ms
  | _ => []

/-- `Occurs t u`: `t` is `u` or a part of it, at any depth. -/
inductive Occurs (t : ResolvedType) : ResolvedType → Prop
  | refl : Occurs t t
  | part {u m : ResolvedType} : m ∈ u.parts → Occurs t m → Occurs t u

theorem Occurs.trans {t u v : ResolvedType} (h₁ : Occurs t u) (h₂ : Occurs u v) : Occurs t v := by
  induction h₂ with
  | refl => exact h₁
  | part hm _ ih => exact .part hm ih

theorem occurs_iff {t u : ResolvedType} : Occurs t u ↔ t = u ∨ ∃ m ∈ u.parts, Occurs t m := by
  constructor
  · rintro (_ | ⟨hm, h⟩)
    · exact .inl rfl
    · exact .inr ⟨_, hm, h⟩
  · rintro (rfl | ⟨m, hm, h⟩)
    · exact .refl
    · exact .part hm h

theorem parts_of_composite {u : ResolvedType} {n : String} {ms : List ResolvedType}
    (h : u.composite? = some (n, ms)) : u.parts = ms := by
  cases u <;> simp only [composite?, Option.some.injEq, Prod.mk.injEq, reduceCtorEq] at h <;>
    simp [parts, h.2]

end ResolvedType

open ResolvedType

/-- `t` occurs in one of the types `T`. -/
def Mentions (T : List ResolvedType) (t : ResolvedType) : Prop :=
  ∃ u ∈ T, Occurs t u

section Mentions

variable {T T' : List ResolvedType} {t u : ResolvedType}

theorem mentions_of_mem (h : t ∈ T) : Mentions T t :=
  ⟨t, h, .refl⟩

theorem Mentions.of_occurs (h : Mentions T u) (ht : Occurs t u) : Mentions T t := by
  obtain ⟨v, hv, hu⟩ := h
  exact ⟨v, hv, ht.trans hu⟩

@[simp] theorem mentions_nil : ¬ Mentions [] t := by
  simp [Mentions]

theorem mentions_append : Mentions (T ++ T') t ↔ Mentions T t ∨ Mentions T' t := by
  simp only [Mentions, List.mem_append]
  constructor
  · rintro ⟨v, hv | hv, h⟩
    · exact .inl ⟨v, hv, h⟩
    · exact .inr ⟨v, hv, h⟩
  · rintro (⟨v, hv, h⟩ | ⟨v, hv, h⟩)
    · exact ⟨v, .inl hv, h⟩
    · exact ⟨v, .inr hv, h⟩

theorem mentions_singleton : Mentions [u] t ↔ Occurs t u := by
  simp [Mentions]

/-- Adding a type whose parts are already mentioned adds only the type itself. -/
theorem mentions_snoc (hp : ∀ m ∈ u.parts, Mentions T m) :
    Mentions (T ++ [u]) t ↔ Mentions T t ∨ t = u := by
  rw [mentions_append, mentions_singleton, occurs_iff]
  constructor
  · rintro (h | h | ⟨m, hm, ht⟩)
    · exact .inl h
    · exact .inr h
    · exact .inl ((hp m hm).of_occurs ht)
  · rintro (h | h)
    · exact .inl h
    · exact .inr (.inl h)

/-- Once a type is mentioned, its parts need not be listed on their own. -/
theorem mentions_drop_parts :
    Mentions (T ++ u.parts ++ [u]) t ↔ Mentions (T ++ [u]) t := by
  have hp : ∀ m ∈ u.parts, Mentions (T ++ u.parts) m :=
    fun m hm => mentions_of_mem (List.mem_append_right T hm)
  rw [mentions_snoc hp, mentions_append, mentions_append, mentions_singleton, occurs_iff]
  constructor
  · rintro ((h | ⟨v, hv, h⟩) | h)
    · exact .inl h
    · exact .inr (.inr ⟨v, hv, h⟩)
    · exact .inr (.inl h)
  · rintro (h | h | ⟨m, hm, h⟩)
    · exact .inl (.inl h)
    · exact .inr h
    · exact .inl (.inr ⟨m, hm, h⟩)

/-- Adding a type whose parts are mentioned changes nothing about the other types. -/
theorem mentions_snoc_of_ne (hp : ∀ m ∈ u.parts, Mentions T m) (hne : t ≠ u) :
    Mentions (T ++ [u]) t ↔ Mentions T t := by
  rw [mentions_snoc hp, or_iff_left hne]

end Mentions

/-! ## Recording a primitive -/

namespace Context

variable (c : Context) (p : Primitive)

@[simp] theorem note_composites : (c.note p).composites = c.composites := by
  unfold note
  cases p <;> split <;> rfl

@[simp] theorem note_customTypes : (c.note p).customTypes =
    if p.isCustomAlias && !c.customTypes.contains p then c.customTypes ++ [p] else c.customTypes := by
  unfold note
  cases p <;> split <;> rfl

@[simp] theorem note_usesBigInt : (c.note p).usesBigInt = (c.usesBigInt || p == .bigInt) := by
  unfold note
  cases p <;> split <;> simp

@[simp] theorem note_usesBigUint : (c.note p).usesBigUint = (c.usesBigUint || p == .bigUint) := by
  unfold note
  cases p <;> split <;> simp

end Context

/-! ## The invariant -/

/-- The context agrees with the types `T` resolved so far: composites, aliases and imports are
exactly theirs, and every named type in `T` is declared. -/
structure Closed (doc : AbiDocument) (T : List ResolvedType) (c : Context) : Prop where
  keys_nodup : c.composites.entries.keys.Nodup
  registered : ∀ t n ms, Mentions T t → t.composite? = some (n, ms) →
    (n, compositeFields ms) ∈ c.composites.entries
  witnessed : ∀ n fs, (n, fs) ∈ c.composites.entries →
    ∃ t ms, Mentions T t ∧ t.composite? = some (n, ms) ∧ fs = compositeFields ms
  customTypes_nodup : c.customTypes.Nodup
  mem_customTypes : ∀ p, p ∈ c.customTypes ↔ p.isCustomAlias = true ∧ Mentions T (.primitive p)
  usesBigInt : c.usesBigInt = true ↔ Mentions T (.primitive .bigInt)
  usesBigUint : c.usesBigUint = true ↔ Mentions T (.primitive .bigUint)
  record_declared : ∀ n, Mentions T (.record n) → ∃ ds fs, doc.types.get? n = some (.struct ds fs)
  enum_declared : ∀ n, Mentions T (.enum n) → ∃ ds vs, doc.types.get? n = some (.enum ds vs)

namespace Closed

variable {doc : AbiDocument} {T T' : List ResolvedType} {c : Context}

/-- Nothing is resolved in a fresh context. -/
theorem forDocument (doc : AbiDocument) : Closed doc [] (Context.forDocument doc) where
  keys_nodup := List.nodup_nil
  registered _ _ _ h := absurd h mentions_nil
  witnessed _ _ h := absurd h List.not_mem_nil
  customTypes_nodup := List.nodup_nil
  mem_customTypes _ := by simp [Context.forDocument]
  usesBigInt := by simp [Context.forDocument]
  usesBigUint := by simp [Context.forDocument]
  record_declared _ h := absurd h mentions_nil
  enum_declared _ h := absurd h mentions_nil

/-- The invariant reads the types only through what they mention. -/
theorem congr (hc : Closed doc T c) (h : ∀ t, Mentions T t ↔ Mentions T' t) : Closed doc T' c where
  keys_nodup := hc.keys_nodup
  registered t n ms ht := hc.registered t n ms ((h t).2 ht)
  witnessed n fs hm := by
    obtain ⟨t, ms, ht, hn, hfs⟩ := hc.witnessed n fs hm
    exact ⟨t, ms, (h t).1 ht, hn, hfs⟩
  customTypes_nodup := hc.customTypes_nodup
  mem_customTypes p := (hc.mem_customTypes p).trans (and_congr_right' (h _))
  usesBigInt := hc.usesBigInt.trans (h _)
  usesBigUint := hc.usesBigUint.trans (h _)
  record_declared n hn := hc.record_declared n ((h _).2 hn)
  enum_declared n hn := hc.enum_declared n ((h _).2 hn)

/-- A type may be listed after its parts, and the parts then dropped. -/
theorem drop_parts {u : ResolvedType} (hc : Closed doc (T ++ u.parts ++ [u]) c) :
    Closed doc (T ++ [u]) c :=
  hc.congr fun _ => mentions_drop_parts

/-- A type that is neither a primitive nor a composite, and names only declared types, needs
nothing from the context. -/
theorem snoc_inert {u : ResolvedType} (hc : Closed doc T c) (hp : ∀ m ∈ u.parts, Mentions T m)
    (hprim : ∀ p, u ≠ .primitive p) (hcomp : u.composite? = none)
    (hrec : ∀ n, u = .record n → ∃ ds fs, doc.types.get? n = some (.struct ds fs))
    (henum : ∀ n, u = .enum n → ∃ ds vs, doc.types.get? n = some (.enum ds vs)) :
    Closed doc (T ++ [u]) c where
  keys_nodup := hc.keys_nodup
  registered t n ms ht htc := by
    rcases (mentions_snoc hp).1 ht with ht | rfl
    · exact hc.registered t n ms ht htc
    · rw [hcomp] at htc
      cases htc
  witnessed n fs hm := by
    obtain ⟨t, ms, ht, hn, hfs⟩ := hc.witnessed n fs hm
    exact ⟨t, ms, (mentions_snoc hp).2 (.inl ht), hn, hfs⟩
  customTypes_nodup := hc.customTypes_nodup
  mem_customTypes p := by rw [hc.mem_customTypes, mentions_snoc_of_ne hp (hprim p).symm]
  usesBigInt := by rw [hc.usesBigInt, mentions_snoc_of_ne hp (hprim _).symm]
  usesBigUint := by rw [hc.usesBigUint, mentions_snoc_of_ne hp (hprim _).symm]
  record_declared n hn := by
    rcases (mentions_snoc hp).1 hn with hn | hn
    · exact hc.record_declared n hn
    · exact hrec n hn.symm
  enum_declared n hn := by
    rcases (mentions_snoc hp).1 hn with hn | hn
    · exact hc.enum_declared n hn
    · exact henum n hn.symm

/-- A primitive is recorded by noting it. -/
theorem snoc_primitive (hc : Closed doc T c) (p : Primitive) :
    Closed doc (T ++ [.primitive p]) (c.note p) := by
  have hp : ∀ m ∈ (ResolvedType.primitive p).parts, Mentions T m := by simp [parts]
  have hmono : ∀ t, t ≠ .primitive p → (Mentions (T ++ [.primitive p]) t ↔ Mentions T t) :=
    fun t hne => mentions_snoc_of_ne hp hne
  constructor
  · simpa using hc.keys_nodup
  · intro t n ms ht htc
    have hne : t ≠ .primitive p := by
      rintro rfl
      cases htc
    simpa using hc.registered t n ms ((hmono t hne).1 ht) htc
  · intro n fs hm
    obtain ⟨t, ms, ht, hn, hfs⟩ := hc.witnessed n fs (by simpa using hm)
    exact ⟨t, ms, (mentions_snoc hp).2 (.inl ht), hn, hfs⟩
  · rw [Context.note_customTypes]
    split
    · rename_i hnew
      simp at hnew
      exact hc.customTypes_nodup.append (List.nodup_singleton p)
        (List.disjoint_singleton.2 hnew.2)
    · exact hc.customTypes_nodup
  · intro q
    rw [mentions_snoc hp, ResolvedType.primitive.injEq, Context.note_customTypes]
    split
    · rename_i hnew
      simp at hnew
      rw [List.mem_append, List.mem_singleton]
      constructor
      · rintro (hq | rfl)
        · exact ⟨((hc.mem_customTypes q).1 hq).1, .inl ((hc.mem_customTypes q).1 hq).2⟩
        · exact ⟨hnew.1, .inr rfl⟩
      · rintro ⟨ha, hq | hq⟩
        · exact .inl ((hc.mem_customTypes q).2 ⟨ha, hq⟩)
        · exact .inr hq
    · rename_i hold
      simp at hold
      constructor
      · intro hq
        exact ⟨((hc.mem_customTypes q).1 hq).1, .inl ((hc.mem_customTypes q).1 hq).2⟩
      · rintro ⟨ha, hq | rfl⟩
        · exact (hc.mem_customTypes q).2 ⟨ha, hq⟩
        · exact hold ha
  · rw [Context.note_usesBigInt, Bool.or_eq_true, hc.usesBigInt, mentions_snoc hp, beq_iff_eq,
      ResolvedType.primitive.injEq, eq_comm]
  · rw [Context.note_usesBigUint, Bool.or_eq_true, hc.usesBigUint, mentions_snoc hp, beq_iff_eq,
      ResolvedType.primitive.injEq, eq_comm]
  · intro n hn
    exact hc.record_declared n ((hmono _ (by simp)).1 hn)
  · intro n hn
    exact hc.enum_declared n ((hmono _ (by simp)).1 hn)

/-- A composite is recorded by registering its members: an equal entry is found, or a new one is
appended under a fresh name. -/
theorem snoc_composite {u : ResolvedType} {n : String} {ms : List ResolvedType} {r : Registry}
    (hc : Closed doc T c) (hp : ∀ m ∈ ms, Mentions T m) (hu : u.composite? = some (n, ms))
    (hreg : c.composites.register ms = (n, r)) :
    Closed doc (T ++ [u]) { c with composites := r } := by
  have hparts : ∀ m ∈ u.parts, Mentions T m := by rwa [parts_of_composite hu]
  have hmono : ∀ t, t ≠ u → (Mentions (T ++ [u]) t ↔ Mentions T t) :=
    fun t hne => mentions_snoc_of_ne hparts hne
  have hnotu : ∀ t, t.composite? = none → t ≠ u := by
    rintro t ht rfl
    rw [hu] at ht
    cases ht
  obtain ⟨hkeys, hmem⟩ := Registry.register_entries hc.keys_nodup hreg
  constructor
  · exact hkeys
  · intro t n' ms' ht htc
    rcases (mentions_snoc hparts).1 ht with ht | rfl
    · exact (hmem _).2 (.inl (hc.registered t n' ms' ht htc))
    · rw [hu, Option.some.injEq, Prod.mk.injEq] at htc
      obtain ⟨rfl, rfl⟩ := htc
      exact (hmem _).2 (.inr rfl)
  · intro n' fs hm
    rcases (hmem _).1 hm with hm | he
    · obtain ⟨t, ms', ht, hn, hfs⟩ := hc.witnessed n' fs hm
      exact ⟨t, ms', (mentions_snoc hparts).2 (.inl ht), hn, hfs⟩
    · rw [Prod.mk.injEq] at he
      obtain ⟨rfl, rfl⟩ := he
      exact ⟨u, ms, (mentions_snoc hparts).2 (.inr rfl), hu, rfl⟩
  · exact hc.customTypes_nodup
  · intro p
    rw [hc.mem_customTypes, hmono _ (hnotu _ rfl)]
  · rw [hc.usesBigInt, hmono _ (hnotu _ rfl)]
  · rw [hc.usesBigUint, hmono _ (hnotu _ rfl)]
  · intro n' hn
    exact hc.record_declared n' ((hmono _ (hnotu _ rfl)).1 hn)
  · intro n' hn
    exact hc.enum_declared n' ((hmono _ (hnotu _ rfl)).1 hn)

/-- A list or variadic of a resolved type needs nothing more from the context. -/
theorem snoc_wrapper {i w : ResolvedType} (hc : Closed doc (T ++ [i]) c)
    (hw : w = .list i ∨ w = .variadic i) : Closed doc (T ++ [w]) c := by
  have hparts : w.parts = [i] := by rcases hw with rfl | rfl <;> rfl
  have hc' : Closed doc (T ++ w.parts ++ [w]) c := by
    rw [hparts]
    refine hc.snoc_inert (fun m hm => ?_) ?_ ?_ ?_ ?_
    · rw [hparts, List.mem_singleton] at hm
      subst hm
      exact mentions_of_mem (List.mem_append_right T (List.mem_singleton_self m))
    all_goals rcases hw with rfl | rfl <;> simp [composite?]
  exact hc'.drop_parts

end Closed

/-! ## Resolution keeps the invariant -/

section Resolution

variable {doc : AbiDocument}

/-- Mapping a resolution over a list extends the types by each answer in turn. -/
theorem mapM_closed {α β : Type} (proj : β → ResolvedType) {f : α → Resolve β}
    (hf : ∀ x T, Triple (Closed doc T) (f x) fun b => Closed doc (T ++ [proj b]))
    (xs : List α) (T : List ResolvedType) :
    Triple (Closed doc T) (xs.mapM f) fun bs => Closed doc (T ++ bs.map proj) := by
  refine Triple.conseq (Triple.mapM (I := fun acc => Closed doc (T ++ acc.map proj)) fun x _ acc => ?_)
    (fun c hc => by simpa using hc) fun _ _ h => h
  exact (hf x _).conseq (fun _ h => h) fun _ _ h => by simpa using h

theorem registerComposite_closed {ms : List ResolvedType} (k : String → ResolvedType)
    (hk : ∀ n, (k n).composite? = some (n, ms)) (T : List ResolvedType)
    (hp : ∀ m ∈ ms, Mentions T m) :
    Triple (Closed doc T) (registerComposite ms) fun n => Closed doc (T ++ [k n]) := by
  intro c n c' hc hr
  have hrun : ((registerComposite ms).run).run c =
      (.ok (c.composites.register ms).1, { c with composites := (c.composites.register ms).2 }) :=
    rfl
  rw [hrun] at hr
  cases hr
  exact hc.snoc_composite hp (hk _) rfl

/-- The members of a composite extend the types one by one. -/
theorem resolveMembers_closed {member : String → Resolve ResolvedType}
    (h : ∀ x T, Triple (Closed doc T) (member x) fun t => Closed doc (T ++ [t])) (inner : String)
    (T : List ResolvedType) :
    Triple (Closed doc T) (resolveMembers member inner) fun ms => Closed doc (T ++ ms) := by
  unfold resolveMembers
  split
  · exact Triple.throw
  · exact (mapM_closed id h _ T).conseq (fun _ h => h) fun _ _ h => by simpa using h

/-- Resolving an expression records exactly what the answer mentions. -/
theorem resolveWith_closed (doc : AbiDocument) :
    ∀ (fuel : Nat) (expr : String) (T : List ResolvedType),
      Triple (Closed doc T) (resolveWith doc fuel expr) fun t => Closed doc (T ++ [t])
  | 0, _, _ => Triple.throw
  | fuel + 1, expr, T => by
    have members := fun inner => resolveMembers_closed (resolveWith_closed doc fuel) inner T
    have composite : ∀ (k : String → List ResolvedType → ResolvedType),
        (∀ n ms, (k n ms).composite? = some (n, ms)) → ∀ ms,
        Triple (Closed doc (T ++ ms)) (do return k (← registerComposite ms) ms)
          fun t => Closed doc (T ++ [t]) := by
      intro k hk ms
      refine Triple.bind (registerComposite_closed (fun n => k n ms) (fun n => hk n ms) (T ++ ms)
        fun m hm => mentions_of_mem (List.mem_append_right T hm)) fun n => Triple.pure fun c hc => ?_
      have hparts := parts_of_composite (hk n ms)
      exact Closed.drop_parts (by rwa [hparts])
    unfold resolveWith
    split
    · exact Triple.throw
    · rename_i p _
      exact Triple.bind (Triple.modify fun c hc => hc.snoc_primitive p) fun _ => Triple.pure fun _ h => h
    · rename_i n _
      split
      · rename_i ds fs hn
        refine Triple.pure fun c hc => hc.snoc_inert (by simp [parts]) (by simp) rfl ?_ (by simp)
        rintro n' ⟨⟩
        exact ⟨ds, fs, hn⟩
      · rename_i ds vs hn
        refine Triple.pure fun c hc => hc.snoc_inert (by simp [parts]) (by simp) rfl (by simp) ?_
        rintro n' ⟨⟩
        exact ⟨ds, vs, hn⟩
      · exact Triple.throw
    · exact Triple.bind (resolveWith_closed doc fuel _ T) fun _ =>
        Triple.pure fun _ hc => hc.snoc_wrapper (.inl rfl)
    · exact Triple.bind (resolveWith_closed doc fuel _ T) fun _ =>
        Triple.pure fun _ hc => hc.snoc_wrapper (.inr rfl)
    · refine Triple.bind (members _) fun ms => ?_
      split
      · exact Triple.pure fun _ hc => hc.snoc_wrapper (.inr rfl)
      · exact composite ResolvedType.multiVariadic (fun _ _ => rfl) ms
    · refine Triple.bind (members _) fun ms => ?_
      split
      · exact Triple.pure fun _ hc => hc.snoc_wrapper (.inl rfl)
      · exact composite ResolvedType.multi (fun _ _ => rfl) ms
    · exact Triple.bind (members _) (composite ResolvedType.tuple fun _ _ => rfl)

theorem resolve_closed (expr : String) (T : List ResolvedType) :
    Triple (Closed doc T) (resolve doc expr) fun t => Closed doc (T ++ [t]) :=
  resolveWith_closed doc _ expr T

theorem resolveFields_closed (owner : String) :
    ∀ (fields : List StructField) (T : List ResolvedType),
      Triple (Closed doc T) (resolveFields doc owner fields) fun fs => Closed doc (T ++ fs.map (·.type))
  | [], T => Triple.pure fun _ hc => by simpa using hc
  | f :: fs, T => by
    refine Triple.bind (resolve_closed f.typeExpr T) fun ty => ?_
    have rest : Triple (Closed doc (T ++ [ty]))
        (do let r ← resolveFields doc owner fs; pure (⟨f.name, ty⟩ :: r))
        fun fs' => Closed doc (T ++ fs'.map (·.type)) :=
      Triple.bind (resolveFields_closed owner fs _) fun r => Triple.pure fun _ hc => by simpa using hc
    split
    · exact Triple.bind Triple.throw fun _ => rest
    · exact rest

theorem resolveInputs_closed (inputs : List EndpointInput) (T : List ResolvedType) :
    Triple (Closed doc T) (resolveInputs doc inputs) fun is => Closed doc (T ++ is.map (·.type)) :=
  mapM_closed Input.type (fun i T => Triple.bind (resolve_closed i.typeExpr T) fun _ =>
    Triple.pure fun _ hc => hc) inputs T

theorem resolveOutputs_closed (outputs : List EndpointOutput) (T : List ResolvedType) :
    Triple (Closed doc T) (resolveOutputs doc outputs) fun os => Closed doc (T ++ os.map (·.type)) :=
  mapM_closed Output.type (fun o T => Triple.bind (resolve_closed o.typeExpr T) fun _ =>
    Triple.pure fun _ hc => hc) outputs T

end Resolution

/-! ## Endpoints keep the invariant -/

/-- The types of an endpoint the bindings use: its inputs, and its outputs when they are decoded. -/
def Endpoint.usedTypes (e : Endpoint) : List ResolvedType :=
  e.inputs.map (·.type) ++ if e.isReadonly then e.outputs.map (·.type) else []

/-- Classifying an endpoint skips it with the context unchanged, or answers it with inputs, and
for a readonly one outputs, resolved and planned. -/
theorem classify_ok {doc : AbiDocument} {e : EndpointDescriptor} {c c' : Context}
    {r : Option Endpoint} (h : ((classify doc e).run).run c = (.ok r, c')) :
    (r = none ∧ c' = c) ∨
      ∃ ep c₁, r = some ep ∧ ep.methodName = Binding.methodName e.name ∧
        ((resolveInputs doc e.inputs).run).run c = (.ok ep.inputs, c₁) ∧
        ((ep.kind = .readonly ∧ ((resolveOutputs doc e.outputs).run).run c₁ = (.ok ep.outputs, c') ∧
            planOutputs (ep.outputs.map (·.type)) = .ok ep.plans) ∨
          (ep.kind = .mutable ∧ c' = c₁ ∧ ep.plans = [] ∧
            ∃ c₂, ((resolveOutputs doc e.outputs).run).run c₁ = (.ok ep.outputs, c₂))) := by
  unfold classify at h
  simp only [pure_bind] at h
  split at h
  · split at h
    · rw [run_throw_bind] at h
      cases h
    split at h
    · rw [run_throw_bind] at h
      cases h
    rcases run_bind_cases h with ⟨err, -, hr⟩ | ⟨ins, c₁, hins, h⟩
    · cases hr
    rcases run_bind_cases h with ⟨err, -, hr⟩ | ⟨outs, c₂, houts, h⟩
    · cases hr
    split at h
    · cases h
      exact .inr ⟨_, c₁, rfl, rfl, hins, .inl ⟨rfl, houts, ‹_›⟩⟩
    · rw [run_throw_bind] at h
      cases h
  · split at h
    · rw [run_throw_bind] at h
      cases h
    split at h
    · rw [run_throw_bind] at h
      cases h
    rcases run_bind_cases h with ⟨err, -, hr⟩ | ⟨ins, c₁, hins, h⟩
    · cases hr
    rcases run_bind_cases h with ⟨err, -, hr⟩ | ⟨sc, c₂, hget, h⟩
    · cases hr
    cases hget
    split at h
    · cases h
      exact .inr ⟨_, _, rfl, rfl, hins, .inr ⟨rfl, rfl, rfl, _, ‹_›⟩⟩
    · rw [run_throw_bind] at h
      cases h
  · cases h
    exact .inl ⟨rfl, rfl⟩

/-- Classifying an endpoint records exactly what the endpoint's bindings use. -/
theorem classify_closed {doc : AbiDocument} {e : EndpointDescriptor} {T : List ResolvedType}
    {c c' : Context} {r : Option Endpoint} (hc : Closed doc T c)
    (h : ((classify doc e).run).run c = (.ok r, c')) :
    Closed doc (T ++ (r.map Endpoint.usedTypes).getD []) c' := by
  rcases classify_ok h with ⟨rfl, rfl⟩ | ⟨ep, c₁, rfl, -, hins, hout⟩
  · simpa using hc
  have h₁ := resolveInputs_closed e.inputs T c _ c₁ hc hins
  rcases hout with ⟨hkind, houts, -⟩ | ⟨hkind, rfl, -, -⟩
  · have h₂ := resolveOutputs_closed e.outputs _ c₁ _ c' h₁ houts
    simpa [Endpoint.usedTypes, Endpoint.isReadonly, hkind] using h₂
  · simpa [Endpoint.usedTypes, Endpoint.isReadonly, hkind] using h₁

namespace Progress

variable {doc : AbiDocument} {pol : Policy} {p q : Progress} {e : EndpointDescriptor}

/-- What one endpoint step can do: skip the endpoint, add it with its names claimed, or, under
the skipping policy, record its failure and keep the progress. -/
theorem step_ok_cases (h : p.step doc pol e = .ok q) :
    (∃ ctx, ((classify doc e).run).run p.context = (.ok none, ctx) ∧
        q = { p with context := ctx, skipped := p.skipped ++ [e.name] }) ∨
      (∃ c names ctx, ((classify doc e).run).run p.context = (.ok (some c), ctx) ∧
        p.names.claim c = .ok names ∧
        q = { p with context := ctx, names := names, endpoints := p.endpoints ++ [c] }) ∨
      (∃ err, pol = .skipFailed ∧ q = { p with failures := p.failures ++ [⟨e.name, err⟩] }) := by
  simp only [Progress.step] at h
  split at h
  rename_i r ctx hrun
  cases r with
  | error err =>
    cases pol with
    | strict => cases h
    | skipFailed =>
      cases h
      exact .inr (.inr ⟨_, rfl, rfl⟩)
  | ok o =>
    cases o with
    | none =>
      cases h
      exact .inl ⟨ctx, hrun, rfl⟩
    | some c =>
      cases hc : p.names.claim c with
      | error err =>
        cases pol <;> simp [hc, bind, Except.bind] at h
        exact .inr (.inr ⟨_, rfl, h.symm⟩)
      | ok names =>
        simp only [hc, bind, Except.bind, pure, Except.pure, Except.ok.injEq] at h
        exact .inr (.inl ⟨c, names, ctx, hrun, hc, h.symm⟩)

/-- The context of the progress agrees with the types `R` resolved before the endpoints and the
types of the endpoints added so far. -/
def Closed (doc : AbiDocument) (R : List ResolvedType) (p : Progress) : Prop :=
  ContractAbi.Closed doc (R ++ p.endpoints.flatMap Endpoint.usedTypes) p.context

theorem step_closed {R : List ResolvedType} (hp : p.Closed doc R) (h : p.step doc pol e = .ok q) :
    q.Closed doc R := by
  rcases step_ok_cases h with ⟨ctx, hrun, rfl⟩ | ⟨c, names, ctx, hrun, -, rfl⟩ | ⟨err, -, rfl⟩
  · simpa [Progress.Closed] using classify_closed hp hrun
  · simpa [Progress.Closed] using classify_closed hp hrun
  · exact hp

/-- What every endpoint step keeps holds after the run over all endpoints. -/
theorem foldlM_inv (P : Progress → Prop)
    (hstep : ∀ {p q : Progress} {e : EndpointDescriptor}, P p → p.step doc pol e = .ok q → P q) :
    ∀ {es : List EndpointDescriptor} {p q : Progress}, P p →
      es.foldlM (step doc pol) p = .ok q → P q
  | [], p, q, hp, h => by
    cases h
    exact hp
  | e :: es, p, q, hp, h => by
    rw [List.foldlM_cons] at h
    cases hs : p.step doc pol e with
    | error err =>
      rw [hs] at h
      cases h
    | ok p' =>
      rw [hs] at h
      exact foldlM_inv P hstep (hstep hp hs) h

theorem foldlM_closed {R : List ResolvedType} {es : List EndpointDescriptor} {p q : Progress}
    (hp : p.Closed doc R) (h : es.foldlM (step doc pol) p = .ok q) : q.Closed doc R :=
  foldlM_inv (·.Closed doc R) step_closed hp h

end Progress

/-! ## Declaring the named types keeps the invariant -/

/-- The field types of records or composites, in order. -/
def fieldTypes (entries : OrderedMap (List Field)) : List ResolvedType :=
  entries.flatMap fun e => e.2.map (·.type)

@[simp] theorem fieldTypes_nil : fieldTypes [] = [] := rfl

@[simp] theorem fieldTypes_append (a b : OrderedMap (List Field)) :
    fieldTypes (a ++ b) = fieldTypes a ++ fieldTypes b := by
  simp [fieldTypes]

@[simp] theorem fieldTypes_singleton (n : String) (fs : List Field) :
    fieldTypes [(n, fs)] = fs.map (·.type) := by
  simp [fieldTypes]

theorem checkVariants_ne_nil {name : String} {seen : List Nat} {v : EnumVariant}
    {vs : List EnumVariant} {rs : List Variant} (h : checkVariants name seen (v :: vs) = .ok rs) :
    rs ≠ [] := by
  unfold checkVariants at h
  split at h
  · cases h
  · split at h
    · cases h
    · cases hr : checkVariants name (v.discriminant :: seen) vs with
      | error e =>
        rw [hr] at h
        cases h
      | ok rs' =>
        rw [hr] at h
        cases h
        exact List.cons_ne_nil _ _

/-- A resolved enum has a variant. -/
theorem resolveVariants_ne_nil {name : String} {variants : List EnumVariant} {rs : List Variant}
    (h : resolveVariants name variants = .ok rs) : rs ≠ [] := by
  unfold resolveVariants at h
  split at h
  · cases h
  · rename_i hne
    cases variants with
    | nil => simp at hne
    | cons v vs => exact checkVariants_ne_nil h

/-- A struct declaration, as opposed to an enum. -/
def TypeDefinition.isStruct : TypeDefinition → Bool
  | .struct .. => true
  | .enum .. => false

/-- The state after declaring `done`: its structs and enums in order, each enum with a variant,
and a context that agrees with the field types. -/
structure Declared (doc : AbiDocument) (done : OrderedMap TypeDefinition)
    (s : Declarations × Context) : Prop where
  records_keys : s.1.records.keys = OrderedMap.keys (done.filter (·.2.isStruct))
  enums_keys : s.1.enums.keys = OrderedMap.keys (done.filter (!·.2.isStruct))
  enums_nonempty : ∀ e ∈ s.1.enums, e.2 ≠ []
  closed : Closed doc (fieldTypes s.1.records) s.2

theorem Declared.initial (doc : AbiDocument) : Declared doc [] ({}, Context.forDocument doc) where
  records_keys := rfl
  enums_keys := rfl
  enums_nonempty := fun _ he => by cases he
  closed := Closed.forDocument doc

/-- A declaration whose name is new is appended. -/
theorem insert_of_not_mem_keys {α : Type} {m : OrderedMap α} {k : String} {v : α}
    (h : k ∉ m.keys) : m.insert k v = m ++ [(k, v)] :=
  OrderedMap.insert_of_not_contains (by rw [Bool.eq_false_iff, Ne, OrderedMap.contains_iff]; exact h)

theorem not_mem_keys_filter {α : Type} {m : OrderedMap α} {k : String} {p : String × α → Bool}
    (h : k ∉ m.keys) : k ∉ OrderedMap.keys (m.filter p) := fun hk =>
  h ((List.filter_sublist.map Prod.fst).subset hk)

theorem Declare.lift_triple {α : Type} {P : Context → Prop} {Q : α → Context → Prop}
    {m : Resolve α} (h : Triple P m Q) (d : Declarations) :
    Triple (fun s => s.1 = d ∧ P s.2) (Declare.lift m) fun a s => s.1 = d ∧ Q a s.2 := by
  intro s a s' hs hr
  have hrun : ((Declare.lift m).run).run s = (((m.run).run s.2).1, (s.1, ((m.run).run s.2).2)) :=
    rfl
  rcases hm : (m.run).run s.2 with ⟨r, c⟩
  rw [hrun, hm] at hr
  cases hr
  exact ⟨hs.1, h s.2 a c hs.2 hm⟩

theorem liftExcept_ok {α : Type} {P : Declarations × Context → Prop}
    (x : Except ConversionError α) :
    Triple P (declareAll.liftExcept x) fun a s => P s ∧ x = .ok a := by
  cases x with
  | error e => exact Triple.throw
  | ok a => exact Triple.pure fun _ h => ⟨h, rfl⟩

/-- Declaring the named types in order, each under a name not declared before. -/
theorem declareAll_declared (doc : AbiDocument) :
    ∀ (rest done : OrderedMap TypeDefinition), (done ++ rest).keys.Nodup →
      Triple (Declared doc done) (declareAll doc rest) fun _ => Declared doc (done ++ rest)
  | [], done, _ => Triple.pure fun _ h => by simpa using h
  | (name, t) :: rest, done, hnd => by
    have hnd' : (done ++ [(name, t)] ++ rest).keys.Nodup := by simpa using hnd
    have hnew : name ∉ done.keys := by
      simp only [OrderedMap.keys_append, List.nodup_append] at hnd
      exact fun h => hnd.2.2 name h name (by simp [OrderedMap.keys]) rfl
    have tail : Triple (Declared doc (done ++ [(name, t)])) (declareAll doc rest)
        fun _ => Declared doc (done ++ (name, t) :: rest) :=
      (declareAll_declared doc rest _ hnd').conseq (fun _ h => h) fun _ _ h => by simpa using h
    cases t with
    | struct ds fields =>
      intro s u s' hs h
      have hname : name ∉ s.1.records.keys := by
        rw [hs.records_keys]
        exact not_mem_keys_filter hnew
      refine (Triple.bind (Declare.lift_triple (resolveFields_closed name fields _) s.1)
        fun resolved => Triple.bind (Triple.modify fun s₁ hs₁ => ?_) fun _ => tail)
        s u s' ⟨rfl, hs.closed⟩ h
      obtain ⟨d₁, c₁⟩ := s₁
      obtain ⟨rfl, hc⟩ := hs₁
      dsimp only
      refine ⟨?_, ?_, hs.enums_nonempty, ?_⟩
      · rw [insert_of_not_mem_keys hname, OrderedMap.keys_append, hs.records_keys]
        simp [TypeDefinition.isStruct, OrderedMap.keys]
      · rw [hs.enums_keys]
        simp [TypeDefinition.isStruct]
      · simpa [insert_of_not_mem_keys hname] using hc
    | enum ds variants =>
      refine Triple.bind (liftExcept_ok _) fun vs => Triple.bind (Triple.modify fun s hs => ?_)
        fun _ => tail
      obtain ⟨d, c⟩ := s
      obtain ⟨hs, hvs⟩ := hs
      have hname : name ∉ d.enums.keys := by
        rw [hs.enums_keys]
        exact not_mem_keys_filter hnew
      dsimp only
      refine ⟨?_, ?_, ?_, hs.closed⟩
      · rw [hs.records_keys]
        simp [TypeDefinition.isStruct]
      · rw [insert_of_not_mem_keys hname, OrderedMap.keys_append, hs.enums_keys]
        simp [TypeDefinition.isStruct, OrderedMap.keys]
      · intro e he
        rw [insert_of_not_mem_keys hname] at he
        rcases List.mem_append.1 he with he | he
        · exact hs.enums_nonempty e he
        · rw [List.mem_singleton.1 he]
          exact resolveVariants_ne_nil hvs

/-- Declaring a document ends with a check that reads the state and changes nothing: what
declaring all its types establishes, declaring the document does. -/
theorem declareTypes_of_declareAll {doc : AbiDocument} {P Q : Declarations × Context → Prop}
    (h : Triple P (declareAll doc doc.types) fun _ => Q) :
    Triple P (declareTypes doc) fun _ => Q := by
  unfold declareTypes
  refine Triple.bind h fun _ => Triple.bind Triple.get fun s => ?_
  obtain ⟨d, c⟩ := s
  dsimp only
  split
  · exact Triple.pure fun _ hs => hs.1 ▸ hs.2
  · exact Triple.throw

/-- Declaring a document's named types, which a document holds under distinct names. -/
theorem declareTypes_declared (doc : AbiDocument) (hd : doc.types.keys.Nodup) :
    Triple (Declared doc []) (declareTypes doc) fun _ => Declared doc doc.types :=
  declareTypes_of_declareAll (declareAll_declared doc doc.types [] hd)

/-- A struct of the document is among the declared records. -/
theorem Declared.mem_records_keys {doc : AbiDocument} {s : Declarations × Context}
    (hD : Declared doc doc.types s) {n : String} {ds : List String} {fs : List StructField}
    (h : doc.types.get? n = some (.struct ds fs)) : n ∈ s.1.records.keys := by
  rw [hD.records_keys]
  exact List.mem_map_of_mem (f := Prod.fst) (List.mem_filter.2 ⟨OrderedMap.mem_of_get? h, rfl⟩)

/-- An enum of the document is among the declared enums. -/
theorem Declared.mem_enums_keys {doc : AbiDocument} {s : Declarations × Context}
    (hD : Declared doc doc.types s) {n : String} {ds : List String} {vs : List EnumVariant}
    (h : doc.types.get? n = some (.enum ds vs)) : n ∈ s.1.enums.keys := by
  rw [hD.enums_keys]
  exact List.mem_map_of_mem (f := Prod.fst) (List.mem_filter.2 ⟨OrderedMap.mem_of_get? h, rfl⟩)

/-! ## The analyzed model -/

theorem compositeFields_types (ms : List ResolvedType) : (compositeFields ms).map (·.type) = ms := by
  have h : ((List.range ms.length).zip ms).map Prod.snd = ms := List.map_snd_zip (by simp)
  simpa [compositeFields, Function.comp_def] using h

theorem Context.mem_imports (c : Context) (s : String) :
    s ∈ c.imports ↔ s = "BigInt" ∧ c.usesBigInt = true ∨ s = "BigUint" ∧ c.usesBigUint = true := by
  unfold Context.imports
  cases c.usesBigInt <;> cases c.usesBigUint <;> simp

/-- The members of the registered composites are mentioned by the references to them. -/
theorem Closed.mentions_of_composites {doc : AbiDocument} {T : List ResolvedType} {c : Context}
    {t : ResolvedType} (hc : Closed doc T c) (h : Mentions (fieldTypes c.composites.entries) t) :
    Mentions T t := by
  obtain ⟨u, hu, ht⟩ := h
  simp only [fieldTypes, List.mem_flatMap] at hu
  obtain ⟨⟨n, fs⟩, hm, hu⟩ := hu
  obtain ⟨v, ms, hv, hn, rfl⟩ := hc.witnessed n fs hm
  rw [compositeFields_types] at hu
  have hpart : u ∈ v.parts := by rwa [parts_of_composite hn]
  exact hv.of_occurs (ht.trans (.part hpart .refl))

section Analysis

variable {d : AbiDocument} {pol : Policy}

@[simp] theorem Progress.model_catalog (doc : AbiDocument) (decls : Declarations) (p : Progress) :
    (p.model doc decls).catalog = decls.catalog p.context := rfl

@[simp] theorem Progress.model_customTypes (doc : AbiDocument) (decls : Declarations)
    (p : Progress) : (p.model doc decls).customTypes = p.context.customTypes := rfl

@[simp] theorem Progress.model_imports (doc : AbiDocument) (decls : Declarations) (p : Progress) :
    (p.model doc decls).imports = p.context.imports := rfl

@[simp] theorem Progress.model_endpoints (doc : AbiDocument) (decls : Declarations)
    (p : Progress) : (p.model doc decls).endpoints = p.endpoints := rfl

/-- A model comes from declaring the named types and then running over the endpoints. -/
theorem analyze_ok {m : Model} (h : analyze d pol = .ok m) :
    ∃ decls ctx p, ((declareTypes d).run).run ({}, Context.forDocument d) = (.ok (), decls, ctx) ∧
      d.endpoints.foldlM (Progress.step d pol) (Progress.initial d ctx) = .ok p ∧
      m = p.model d decls := by
  cases hf : checkFramework d with
  | error e =>
    rw [analyze_of_frameworkError hf] at h
    cases h
  | ok u =>
    cases u
    rcases hd : ((declareTypes d).run).run ({}, Context.forDocument d) with ⟨r, decls, ctx⟩
    cases r with
    | error e =>
      rw [analyze_of_declareError hf hd] at h
      cases h
    | ok u' =>
      cases u'
      rw [analyze_of_declared hf hd] at h
      cases hp : d.endpoints.foldlM (Progress.step d pol) (Progress.initial d ctx) with
      | error e =>
        rw [hp] at h
        cases h
      | ok p =>
        rw [hp] at h
        cases h
        exact ⟨decls, ctx, p, rfl, hp, rfl⟩

end Analysis

/-- The types the bindings of a model use: record and composite fields, endpoint inputs, and the
outputs of readonly endpoints. -/
def Model.usedTypes (m : Model) : List ResolvedType :=
  fieldTypes m.catalog.records ++ fieldTypes m.catalog.composites ++
    m.endpoints.flatMap Endpoint.usedTypes

theorem Model.mem_usedTypes_of_field {m : Model} {e : String × List Field} {f : Field}
    (he : e ∈ m.catalog.records ++ m.catalog.composites) (hf : f ∈ e.2) :
    f.type ∈ m.usedTypes := by
  simp only [Model.usedTypes, fieldTypes, List.mem_append, List.mem_flatMap, List.mem_map]
  rcases List.mem_append.1 he with he | he
  · exact .inl (.inl ⟨e, he, f, hf, rfl⟩)
  · exact .inl (.inr ⟨e, he, f, hf, rfl⟩)

theorem Model.mem_usedTypes_of_input {m : Model} {e : Endpoint} {i : Input}
    (he : e ∈ m.endpoints) (hi : i ∈ e.inputs) : i.type ∈ m.usedTypes := by
  simp only [Model.usedTypes, List.mem_append, List.mem_flatMap]
  exact .inr ⟨e, he, List.mem_append_left _ (List.mem_map_of_mem hi)⟩

theorem Model.mem_usedTypes_of_output {m : Model} {e : Endpoint} {o : Output}
    (he : e ∈ m.endpoints) (hr : e.isReadonly = true) (ho : o ∈ e.outputs) :
    o.type ∈ m.usedTypes := by
  simp only [Model.usedTypes, List.mem_append, List.mem_flatMap]
  refine .inr ⟨e, he, List.mem_append_right _ ?_⟩
  simp only [hr, if_true]
  exact List.mem_map_of_mem ho

/-- Analysis declares the named types in order and leaves the invariant over every type the
bindings of its model use. -/
theorem analyze_closed {d : AbiDocument} {pol : Policy} {m : Model} (hd : d.types.keys.Nodup)
    (h : analyze d pol = .ok m) :
    ∃ decls ctx p, d.endpoints.foldlM (Progress.step d pol) (Progress.initial d ctx) = .ok p ∧
      m = p.model d decls ∧ Declared d d.types (decls, ctx) ∧ Closed d m.usedTypes p.context := by
  obtain ⟨decls, ctx, p, hdecl, hrun, rfl⟩ := analyze_ok h
  have hD : Declared d d.types (decls, ctx) :=
    declareTypes_declared d hd _ () _ (Declared.initial d) hdecl
  have hP : p.Closed d (fieldTypes decls.records) :=
    Progress.foldlM_closed (by simpa [Progress.Closed, Progress.initial] using hD.closed) hrun
  have hU : ∀ t, Mentions (p.model d decls).usedTypes t ↔
      Mentions (fieldTypes decls.records ++ p.endpoints.flatMap Endpoint.usedTypes) t := by
    intro t
    simp only [Model.usedTypes, Progress.model_catalog, Progress.model_endpoints,
      Declarations.catalog, mentions_append]
    constructor
    · rintro ((h | h) | h)
      · exact .inl h
      · exact mentions_append.1 (hP.mentions_of_composites h)
      · exact .inr h
    · rintro (h | h)
      · exact .inl (.inl h)
      · exact .inr h
  exact ⟨decls, ctx, p, hrun, rfl, hD, hP.congr fun t => (hU t).symm⟩

/-- The catalog of a model declares exactly what its bindings use: composites, named types,
aliases and imports. -/
structure Model.CatalogClosed (m : Model) : Prop where
  composite_entry : ∀ t n ms, Mentions m.usedTypes t → t.composite? = some (n, ms) →
    m.catalog.composites.get? n = some (compositeFields ms)
  entry_used : ∀ n ∈ m.catalog.composites.keys,
    ∃ t ms, Mentions m.usedTypes t ∧ t.composite? = some (n, ms)
  record_declared : ∀ n, Mentions m.usedTypes (.record n) → n ∈ m.catalog.records.keys
  enum_declared : ∀ n, Mentions m.usedTypes (.enum n) → n ∈ m.catalog.enums.keys
  customTypes_nodup : m.customTypes.Nodup
  mem_customTypes : ∀ p, p ∈ m.customTypes ↔
    p.isCustomAlias = true ∧ Mentions m.usedTypes (.primitive p)
  mem_imports : ∀ s, s ∈ m.imports ↔
    s = "BigInt" ∧ Mentions m.usedTypes (.primitive .bigInt) ∨
      s = "BigUint" ∧ Mentions m.usedTypes (.primitive .bigUint)

/-- Analysis declares exactly what the bindings use, under either policy. The named types of a
document are a map, so their names are distinct. -/
theorem analyze_catalog_closed (d : AbiDocument) (pol : Policy) (hd : d.types.keys.Nodup)
    {m : Model} (h : analyze d pol = .ok m) : m.CatalogClosed := by
  obtain ⟨decls, ctx, p, -, rfl, hD, hC⟩ := analyze_closed hd h
  constructor
  · intro t n ms ht htc
    exact OrderedMap.get?_eq_some_of_mem hC.keys_nodup (hC.registered t n ms ht htc)
  · intro n hn
    obtain ⟨⟨n', fs⟩, hm, rfl⟩ := List.mem_map.1 hn
    obtain ⟨t, ms, ht, htc, -⟩ := hC.witnessed n' fs hm
    exact ⟨t, ms, ht, htc⟩
  · intro n hn
    obtain ⟨ds, fs, hget⟩ := hC.record_declared n hn
    exact hD.mem_records_keys hget
  · intro n hn
    obtain ⟨ds, vs, hget⟩ := hC.enum_declared n hn
    exact hD.mem_enums_keys hget
  · exact hC.customTypes_nodup
  · exact hC.mem_customTypes
  · intro s
    rw [Progress.model_imports, Context.mem_imports, hC.usesBigInt, hC.usesBigUint]

/-- A readonly endpoint listing positions. -/
def positionsEndpoint : EndpointDescriptor where
  name := "positions"
  mutability := .readonly
  outputs := [{ typeExpr := "variadic<Position>" }]

/-- A contract whose one struct holds an address and a list of tuples of a byte and a big number. -/
def pairContract : AbiDocument where
  buildInfo := { framework := { name := "multiversx-sc" } }
  name := "Pair"
  types := [("Position", .struct [] [⟨"owner", "Address"⟩, ⟨"amounts", "List<tuple<u8,BigUint>>"⟩])]
  endpoints := [positionsEndpoint]

theorem pairContract_catalog_closed :
    pairContract.types.keys.Nodup ∧ ∃ m, analyze pairContract .strict = .ok m ∧ m.CatalogClosed :=
  ⟨by decide, _, rfl, analyze_catalog_closed pairContract .strict (by decide) rfl⟩

end ContractAbi
