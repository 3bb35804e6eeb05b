import Mathlib.Logic.Relation
import ContractAbi.Proofs.Deduplication
import ContractAbi.Proofs.Decoding

/-!
# What resolution answers and what it leaves behind

Resolution changes a context in two ways only: it notes a primitive, or it registers the members
of a composite (`Context.Step`). Every run, whether it answers or fails, is a sequence of such
steps (`resolveWith_movesBy`), so the context it leaves extends the one it started from: the
registry grows by registration, the aliases grow at the end, and no import is dropped.

A type it answers is resolved at every node (`NodeResolved`): a `multi` or `variadic<multi>` has at
least two members and a tuple at least one, a composite is registered under its name with its
members as fields, a named type is declared with its kind, and a primitive is noted. What a node
needs of the context survives the steps that follow (`NodeResolved.mono`), so the invariant
`ResolvedIn` follows a run node by node, as `Closed` does in the catalog.

Main statement: `resolve_contract`.
-/

namespace ContractAbi

open ResolvedType

/-! ## Runs that move the state step by step -/

section Moves

variable {σ ε α β : Type} {step : σ → σ → Prop}

/-- Every run of `m`, whether it answers or fails, moves the state by a sequence of `step`s. -/
def MovesBy (step : σ → σ → Prop) (m : ExceptT ε (StateM σ) α) : Prop :=
  ∀ s r s', (m.run).run s = (r, s') → Relation.ReflTransGen step s s'

namespace MovesBy

theorem pure (a : α) : MovesBy step (pure a : ExceptT ε (StateM σ) α) := by
  intro s r s' h
  cases h
  exact .refl

theorem throw (e : ε) : MovesBy step (throw e : ExceptT ε (StateM σ) α) := by
  intro s r s' h
  cases h
  exact .refl

theorem modify {f : σ → σ} (h : ∀ s, step s (f s)) :
    MovesBy step (modify f : ExceptT ε (StateM σ) PUnit) := by
  intro s r s' hr
  cases hr
  exact .single (h s)

theorem bind {m : ExceptT ε (StateM σ) α} {f : α → ExceptT ε (StateM σ) β} (hm : MovesBy step m)
    (hf : ∀ a, MovesBy step (f a)) : MovesBy step (m >>= f) := by
  intro s r s'' h
  rcases run_bind_cases h with ⟨e, hrun, -⟩ | ⟨a, s', hrun, hrest⟩
  · exact hm s _ s'' hrun
  · exact (hm s _ s' hrun).trans (hf a s' r s'' hrest)

theorem mapM {f : α → ExceptT ε (StateM σ) β} :
    ∀ {xs : List α}, (∀ x ∈ xs, MovesBy step (f x)) → MovesBy step (xs.mapM f)
  | [], _ => by
    simpa only [List.mapM_nil] using MovesBy.pure []
  | x :: xs, h => by
    rw [List.mapM_cons]
    refine bind (h x List.mem_cons_self) fun b => bind (mapM fun y hy => h y ?_) fun bs => pure _
    exact List.mem_cons_of_mem x hy

end MovesBy

/-- Both of two facts about the answer hold when each does. -/
theorem Triple.and {P : σ → Prop} {Q₁ Q₂ : α → σ → Prop} {m : ExceptT ε (StateM σ) α}
    (h₁ : Triple P m Q₁) (h₂ : Triple P m Q₂) : Triple P m fun a s => Q₁ a s ∧ Q₂ a s :=
  fun s a s' hp hr => ⟨h₁ s a s' hp hr, h₂ s a s' hp hr⟩

/-- A fact of the precondition that does not depend on the state may be assumed. -/
theorem Triple.assume {P : σ → Prop} {φ : Prop} {Q : α → σ → Prop} {m : ExceptT ε (StateM σ) α}
    (h : φ → Triple P m Q) : Triple (fun s => P s ∧ φ) m Q :=
  fun s a s' hs hr => h hs.2 s a s' hs.1 hr

/-- Mapping over a list that is not empty answers a list that is not empty. -/
theorem Triple.mapM_ne_nil {P : σ → Prop} {f : α → ExceptT ε (StateM σ) β} {xs : List α}
    (hxs : xs ≠ []) : Triple P (xs.mapM f) fun bs _ => bs ≠ [] := by
  obtain ⟨x, xs, rfl⟩ := List.exists_cons_of_ne_nil hxs
  rw [List.mapM_cons]
  intro s bs s' _ h
  rcases run_bind_cases h with ⟨e, -, he⟩ | ⟨b, s₁, -, hrest⟩
  · cases he
  rcases run_bind_cases hrest with ⟨e, -, he⟩ | ⟨bs', s₂, -, hpure⟩
  · cases he
  cases hpure
  exact List.cons_ne_nil _ _

end Moves

/-! ## The steps of resolution -/

/-- One change resolution makes to a context: it notes a primitive, or registers the members of a
composite. -/
inductive Context.Step : Context → Context → Prop
  | note (c : Context) (p : Primitive) : Context.Step c (c.note p)
  | register (c : Context) (ms : List ResolvedType) :
      Context.Step c { c with composites := (c.composites.register ms).2 }

theorem registerComposite_movesBy (ms : List ResolvedType) :
    MovesBy Context.Step (registerComposite ms) := by
  intro c r c' h
  have hrun : ((registerComposite ms).run).run c =
      (.ok (c.composites.register ms).1, { c with composites := (c.composites.register ms).2 }) :=
    rfl
  rw [hrun] at h
  cases h
  exact .single (.register c ms)

theorem resolveMembers_movesBy {member : String → Resolve ResolvedType}
    (h : ∀ x, MovesBy Context.Step (member x)) (inner : String) :
    MovesBy Context.Step (resolveMembers member inner) := by
  unfold resolveMembers
  split
  · exact MovesBy.throw _
  · exact MovesBy.mapM fun x _ => h x

/-- Every run of resolution, answering or failing, notes primitives and registers composites, and
changes the context in no other way. -/
theorem resolveWith_movesBy (doc : AbiDocument) :
    ∀ (fuel : Nat) (expr : String), MovesBy Context.Step (resolveWith doc fuel expr)
  | 0, _ => MovesBy.throw _
  | fuel + 1, expr => by
    have members := resolveMembers_movesBy (resolveWith_movesBy doc fuel)
    have composite : ∀ (ms : List ResolvedType) (k : String → ResolvedType),
        MovesBy Context.Step (do return k (← registerComposite ms)) := fun ms _ =>
      MovesBy.bind (registerComposite_movesBy ms) fun _ => MovesBy.pure _
    unfold resolveWith
    split
    · exact MovesBy.throw _
    · exact MovesBy.bind (MovesBy.modify fun c => .note c _) fun _ => MovesBy.pure _
    · split
      · exact MovesBy.pure _
      · exact MovesBy.pure _
      · exact MovesBy.throw _
    · exact MovesBy.bind (resolveWith_movesBy doc fuel _) fun _ => MovesBy.pure _
    · exact MovesBy.bind (resolveWith_movesBy doc fuel _) fun _ => MovesBy.pure _
    · refine MovesBy.bind (members _) fun ms => ?_
      split
      · exact MovesBy.pure _
      · exact composite ms _
    · refine MovesBy.bind (members _) fun ms => ?_
      split
      · exact MovesBy.pure _
      · exact composite ms _
    · exact MovesBy.bind (members _) fun ms => composite ms _

/-! ## Contexts only grow -/

/-- What a context keeps as resolution goes on: its registry grows by registration, its aliases
grow at the end, and none of its imports is dropped. -/
structure Context.Extends (c c' : Context) : Prop where
  composites : c.composites.Reaches c'.composites
  customTypes : c.customTypes <+: c'.customTypes
  imports : ∀ s ∈ c.imports, s ∈ c'.imports

namespace Context.Extends

variable {c c' c'' : Context}

theorem refl (c : Context) : c.Extends c :=
  ⟨.refl _, List.prefix_refl _, fun _ h => h⟩

theorem trans (h₁ : c.Extends c') (h₂ : c'.Extends c'') : c.Extends c'' :=
  ⟨h₁.composites.trans h₂.composites, h₁.customTypes.trans h₂.customTypes,
    fun s hs => h₂.imports s (h₁.imports s hs)⟩

theorem of_step (h : Context.Step c c') : c.Extends c' := by
  cases h with
  | note p =>
    refine ⟨by rw [Context.note_composites]; exact .refl _, ?_, fun s hs => ?_⟩
    · rw [Context.note_customTypes]
      split
      · exact List.prefix_append _ _
      · exact List.prefix_refl _
    · rw [Context.mem_imports] at hs ⊢
      rw [Context.note_usesBigInt, Context.note_usesBigUint, Bool.or_eq_true, Bool.or_eq_true]
      rcases hs with ⟨rfl, h⟩ | ⟨rfl, h⟩
      · exact .inl ⟨rfl, .inl h⟩
      · exact .inr ⟨rfl, .inl h⟩
  | register ms => exact ⟨.register _ ms, List.prefix_refl _, fun _ h => h⟩

theorem of_steps (h : Relation.ReflTransGen Context.Step c c') : c.Extends c' := by
  induction h with
  | refl => exact refl c
  | tail _ hstep ih => exact ih.trans (of_step hstep)

end Context.Extends

/-! ## Resolved nodes -/

namespace ResolvedType

/-- Every node of `t`, at any depth, satisfies `P`. -/
def AllNodes (P : ResolvedType → Prop) (t : ResolvedType) : Prop :=
  ∀ u, Occurs u t → P u

theorem allNodes_iff {P : ResolvedType → Prop} {t : ResolvedType} :
    AllNodes P t ↔ P t ∧ ∀ m ∈ t.parts, AllNodes P m := by
  constructor
  · intro h
    exact ⟨h t .refl, fun m hm u hu => h u (.part hm hu)⟩
  · rintro ⟨ht, hp⟩ u hu
    rcases occurs_iff.1 hu with rfl | ⟨m, hm, hu⟩
    · exact ht
    · exact hp m hm u hu

end ResolvedType

/-- What resolution promises of one node in context `c`: composites wide enough and registered,
named types declared with their kind, primitives noted. -/
structure NodeResolved (doc : AbiDocument) (c : Context) (u : ResolvedType) : Prop where
  multi : ∀ n ms, u = .multi n ms → 2 ≤ ms.length
  multiVariadic : ∀ n ms, u = .multiVariadic n ms → 2 ≤ ms.length
  tuple : ∀ n ms, u = .tuple n ms → 1 ≤ ms.length
  registered : ∀ n ms, u.composite? = some (n, ms) →
    c.composites.entries.get? n = some (compositeFields ms)
  record : ∀ n, u = .record n → ∃ ds fs, doc.types.get? n = some (.struct ds fs)
  enum : ∀ n, u = .enum n → ∃ ds vs, doc.types.get? n = some (.enum ds vs)
  customType : ∀ p, u = .primitive p → p.isCustomAlias = true → p ∈ c.customTypes
  bigUint : u = .primitive .bigUint → "BigUint" ∈ c.imports
  bigInt : u = .primitive .bigInt → "BigInt" ∈ c.imports

namespace NodeResolved

variable {doc : AbiDocument} {c c' : Context} {u : ResolvedType}

/-- What a node needs of the context survives the context growing, as long as its composite names
stay distinct. -/
theorem mono (h : NodeResolved doc c u) (hc : c.Extends c') (hk : c'.composites.entries.keys.Nodup) :
    NodeResolved doc c' u where
  multi := h.multi
  multiVariadic := h.multiVariadic
  tuple := h.tuple
  registered n ms hu := OrderedMap.get?_eq_some_of_mem hk
    (hc.composites.entries_grow.subset (OrderedMap.mem_of_get? (h.registered n ms hu)))
  record := h.record
  enum := h.enum
  customType p hu ha := hc.customTypes.subset (h.customType p hu ha)
  bigUint hu := hc.imports _ (h.bigUint hu)
  bigInt hu := hc.imports _ (h.bigInt hu)

/-- A node that is neither a primitive nor a composite and names only declared types needs nothing
of the context. -/
theorem of_inert (hprim : ∀ p, u ≠ .primitive p) (hcomp : u.composite? = none)
    (hrec : ∀ n, u = .record n → ∃ ds fs, doc.types.get? n = some (.struct ds fs))
    (henum : ∀ n, u = .enum n → ∃ ds vs, doc.types.get? n = some (.enum ds vs)) :
    NodeResolved doc c u where
  multi n ms hu := by simp [hu, composite?] at hcomp
  multiVariadic n ms hu := by simp [hu, composite?] at hcomp
  tuple n ms hu := by simp [hu, composite?] at hcomp
  registered n ms hu := by simp [hcomp] at hu
  record := hrec
  enum := henum
  customType p hu := absurd hu (hprim p)
  bigUint hu := absurd hu (hprim _)
  bigInt hu := absurd hu (hprim _)

/-- A primitive is resolved once noted. -/
theorem note (p : Primitive) : NodeResolved doc (c.note p) (.primitive p) where
  multi _ _ h := by cases h
  multiVariadic _ _ h := by cases h
  tuple _ _ h := by cases h
  registered _ _ h := by simp [composite?] at h
  record _ h := by cases h
  enum _ h := by cases h
  customType q hq ha := by
    cases hq
    rw [Context.note_customTypes]
    split
    · exact List.mem_append_right _ (List.mem_singleton_self _)
    · rename_i hold
      simp only [ha, Bool.true_and, Bool.not_eq_true', Bool.not_eq_false] at hold
      exact List.contains_iff_mem.1 hold
  bigUint h := by
    cases h
    simp [Context.mem_imports]
  bigInt h := by
    cases h
    simp [Context.mem_imports]

/-- A composite node is resolved when it is registered under its name with its members as fields,
has members, and has two of them when it is a `multi` or `variadic<multi>`. -/
theorem of_composite {n : String} {ms : List ResolvedType} (hu : u.composite? = some (n, ms))
    (hreg : c.composites.entries.get? n = some (compositeFields ms)) (hne : ms ≠ [])
    (hwide : ∀ n' ms', u = .multi n' ms' ∨ u = .multiVariadic n' ms' → 2 ≤ ms'.length) :
    NodeResolved doc c u where
  multi n' ms' h := hwide n' ms' (.inl h)
  multiVariadic n' ms' h := hwide n' ms' (.inr h)
  tuple n' ms' h := by
    subst h
    simp only [composite?, Option.some.injEq, Prod.mk.injEq] at hu
    rw [hu.2]
    exact List.length_pos_of_ne_nil hne
  registered n' ms' h := by
    rw [hu, Option.some.injEq, Prod.mk.injEq] at h
    rw [← h.1, ← h.2]
    exact hreg
  record n' h := by simp [h, composite?] at hu
  enum n' h := by simp [h, composite?] at hu
  customType p h := by simp [h, composite?] at hu
  bigUint h := by simp [h, composite?] at hu
  bigInt h := by simp [h, composite?] at hu

end NodeResolved

/-! ## The invariant of a run -/

/-- The context's composite names are distinct, and the types `T` are resolved in it at every node. -/
def ResolvedIn (doc : AbiDocument) (T : List ResolvedType) (c : Context) : Prop :=
  c.composites.entries.keys.Nodup ∧ ∀ t ∈ T, AllNodes (NodeResolved doc c) t

namespace ResolvedIn

variable {doc : AbiDocument} {T : List ResolvedType} {c c' : Context}

/-- Types resolved in a context stay resolved as the context takes further steps. -/
theorem steps (h : ResolvedIn doc T c) (hs : Relation.ReflTransGen Context.Step c c') :
    ResolvedIn doc T c' := by
  have hc := Context.Extends.of_steps hs
  have hk := hc.composites.keys_nodup h.1
  exact ⟨hk, fun t ht u hu => (h.2 t ht u hu).mono hc hk⟩

theorem append_iff {T' : List ResolvedType} :
    ResolvedIn doc (T ++ T') c ↔ ResolvedIn doc T c ∧ ∀ t ∈ T', AllNodes (NodeResolved doc c) t := by
  simp only [ResolvedIn, List.mem_append]
  constructor
  · rintro ⟨hk, h⟩
    exact ⟨⟨hk, fun t ht => h t (.inl ht)⟩, fun t ht => h t (.inr ht)⟩
  · rintro ⟨⟨hk, h⟩, h'⟩
    exact ⟨hk, fun t ht => ht.elim (h t) (h' t)⟩

/-- A node resolved over resolved parts may take the parts' place. -/
theorem wrap {u : ResolvedType} (h : ResolvedIn doc (T ++ u.parts) c) (hu : NodeResolved doc c u) :
    ResolvedIn doc (T ++ [u]) c := by
  obtain ⟨hT, hparts⟩ := append_iff.1 h
  refine append_iff.2 ⟨hT, fun t ht => ?_⟩
  rw [List.mem_singleton.1 ht]
  exact allNodes_iff.2 ⟨hu, hparts⟩

end ResolvedIn

/-! ## Resolution resolves -/

section Resolution

variable {doc : AbiDocument}

/-- A generic argument list that splits, splits into at least one member. -/
theorem splitMembersAux_ne_nil {whole : String} :
    ∀ {d : Nat} {member cs : List Char} {parts : List String},
      TypeExpr.splitMembersAux whole d member cs = .ok parts → parts ≠ []
  | d, member, [], parts, h => by
    unfold TypeExpr.splitMembersAux at h
    split at h
    · cases h
    · dsimp only at h
      split at h
      · cases h
      · cases h
        exact List.cons_ne_nil _ _
  | d, member, c :: cs, parts, h => by
    unfold TypeExpr.splitMembersAux at h
    split at h
    · exact splitMembersAux_ne_nil h
    · split at h
      · split at h
        · cases h
        · exact splitMembersAux_ne_nil h
      · split at h
        · dsimp only at h
          split at h
          · cases h
          · cases hr : TypeExpr.splitMembersAux whole 0 [] cs with
            | error e =>
              rw [hr] at h
              cases h
            | ok ps =>
              rw [hr] at h
              cases h
              exact List.cons_ne_nil _ _
        · exact splitMembersAux_ne_nil h

/-- A list with neither no member nor one has two. -/
theorem two_le_length_of_ne_singleton {α : Type} {l : List α} (hne : l ≠ []) (hsingle : ∀ a, l ≠ [a]) :
    2 ≤ l.length := by
  rcases l with _ | ⟨a, _ | ⟨b, l⟩⟩
  · exact absurd rfl hne
  · exact absurd rfl (hsingle a)
  · simp

theorem ResolvedIn.list {T : List ResolvedType} {i : ResolvedType} {c : Context}
    (h : ResolvedIn doc (T ++ [i]) c) : ResolvedIn doc (T ++ [.list i]) c :=
  h.wrap (NodeResolved.of_inert (by simp) rfl (by simp) (by simp))

theorem ResolvedIn.variadic {T : List ResolvedType} {i : ResolvedType} {c : Context}
    (h : ResolvedIn doc (T ++ [i]) c) : ResolvedIn doc (T ++ [.variadic i]) c :=
  h.wrap (NodeResolved.of_inert (by simp) rfl (by simp) (by simp))

/-- Registering resolved members resolves the composite built on the name answered. -/
theorem registerComposite_resolved {ms : List ResolvedType} (k : String → ResolvedType)
    (hk : ∀ n, (k n).composite? = some (n, ms)) (hne : ms ≠ [])
    (hwide : ∀ n n' ms', k n = .multi n' ms' ∨ k n = .multiVariadic n' ms' → 2 ≤ ms'.length)
    (T : List ResolvedType) :
    Triple (ResolvedIn doc (T ++ ms)) (registerComposite ms) fun n => ResolvedIn doc (T ++ [k n]) := by
  intro c n c' hc hr
  have hrun : ((registerComposite ms).run).run c =
      (.ok (c.composites.register ms).1, { c with composites := (c.composites.register ms).2 }) :=
    rfl
  rw [hrun] at hr
  cases hr
  have hc' := hc.steps (.single (.register c ms))
  have hreg : (c.composites.register ms).2.entries.get? (c.composites.register ms).1 =
      some (compositeFields ms) :=
    OrderedMap.get?_eq_some_of_mem hc'.1 (Registry.mem_register _ ms)
  refine ResolvedIn.wrap ?_ (NodeResolved.of_composite (hk _) hreg hne (hwide _))
  rwa [parts_of_composite (hk _)]

/-- Resolving an expression resolves the type it answers at every node, and keeps resolved what
was resolved before. -/
theorem resolveWith_resolved (doc : AbiDocument) :
    ∀ (fuel : Nat) (expr : String) (T : List ResolvedType),
      Triple (ResolvedIn doc T) (resolveWith doc fuel expr) fun t => ResolvedIn doc (T ++ [t])
  | 0, _, _ => Triple.throw
  | fuel + 1, expr, T => by
    have members : ∀ inner, Triple (ResolvedIn doc T) (resolveMembers (resolveWith doc fuel) inner)
        fun ms c => ResolvedIn doc (T ++ ms) c ∧ ms ≠ [] := by
      intro inner
      unfold resolveMembers
      split
      · exact Triple.throw
      · rename_i parts hparts
        refine Triple.and ?_ (Triple.mapM_ne_nil (splitMembersAux_ne_nil hparts))
        refine Triple.conseq (Triple.mapM (I := fun acc => ResolvedIn doc (T ++ acc))
          fun x _ acc => ?_) (fun c hc => by simpa using hc) fun _ _ h => h
        exact (resolveWith_resolved doc fuel x (T ++ acc)).conseq (fun _ h => h)
          fun _ _ h => by simpa using h
    have composite : ∀ (k : String → List ResolvedType → ResolvedType) (ms : List ResolvedType),
        (∀ n, (k n ms).composite? = some (n, ms)) → ms ≠ [] →
        (∀ n n' ms', k n ms = .multi n' ms' ∨ k n ms = .multiVariadic n' ms' → 2 ≤ ms'.length) →
        Triple (ResolvedIn doc (T ++ ms)) (do return k (← registerComposite ms) ms)
          fun t => ResolvedIn doc (T ++ [t]) := fun k ms hk hne hwide =>
      Triple.bind (registerComposite_resolved (fun n => k n ms) hk hne hwide T) fun _ =>
        Triple.pure fun _ h => h
    unfold resolveWith
    split
    · exact Triple.throw
    · rename_i p _
      refine Triple.bind (Triple.modify fun c hc => ?_) fun _ => Triple.pure fun _ h => h
      refine ResolvedIn.wrap ?_ (NodeResolved.note p)
      simpa [parts] using hc.steps (.single (.note c p))
    · rename_i n _
      split
      · rename_i ds fs hn
        refine Triple.pure fun c hc => ResolvedIn.wrap (by simpa [parts] using hc) ?_
        refine NodeResolved.of_inert (by simp) rfl ?_ (by simp)
        rintro n' ⟨⟩
        exact ⟨ds, fs, hn⟩
      · rename_i ds vs hn
        refine Triple.pure fun c hc => ResolvedIn.wrap (by simpa [parts] using hc) ?_
        refine NodeResolved.of_inert (by simp) rfl (by simp) ?_
        rintro n' ⟨⟩
        exact ⟨ds, vs, hn⟩
      · exact Triple.throw
    · exact Triple.bind (resolveWith_resolved doc fuel _ T) fun _ =>
        Triple.pure fun _ hc => hc.list
    · exact Triple.bind (resolveWith_resolved doc fuel _ T) fun _ =>
        Triple.pure fun _ hc => hc.variadic
    · refine Triple.bind (members _) fun ms => Triple.assume fun hne => ?_
      split
      · exact Triple.pure fun _ hc => hc.variadic
      · rename_i hsingle
        refine composite ResolvedType.multiVariadic ms (fun _ => rfl) hne ?_
        rintro n n' ms' (h | h) <;> cases h
        exact two_le_length_of_ne_singleton hne hsingle
    · refine Triple.bind (members _) fun ms => Triple.assume fun hne => ?_
      split
      · exact Triple.pure fun _ hc => hc.list
      · rename_i hsingle
        refine composite ResolvedType.multi ms (fun _ => rfl) hne ?_
        rintro n n' ms' (h | h) <;> cases h
        exact two_le_length_of_ne_singleton hne hsingle
    · refine Triple.bind (members _) fun ms => Triple.assume fun hne => ?_
      refine composite ResolvedType.tuple ms (fun _ => rfl) hne ?_
      rintro n n' ms' (h | h) <;> cases h

end Resolution

/-! ## The contract of resolution -/

/-- Only a `variadic<multi>` is read in repeating groups and only a `multi` in one group, each as
many slots wide as it has members. -/
theorem select_group_width {t : ResolvedType} {w : Nat}
    (h : DecodeStrategy.select t = .ok (.groups w) ∨ DecodeStrategy.select t = .ok (.group w)) :
    ∃ n ms, (t = .multi n ms ∨ t = .multiVariadic n ms) ∧ w = ms.length := by
  rcases h with h | h <;>
    rcases DecodeStrategy.select_ok h with ⟨_, -, -, -, hs⟩ | ⟨_, -, -, hs⟩ | ⟨n, ms, rfl, -, hs⟩ |
      ⟨n, ms, rfl, -, hs⟩ | ⟨-, hs⟩ <;> cases hs
  · exact ⟨n, ms, .inr rfl, rfl⟩
  · exact ⟨n, ms, .inl rfl, rfl⟩

/-- One run of resolution from `c` to `c'`: `c'` extends `c` whatever the outcome, and a type
answered is resolved in `c'` at every node. -/
structure ResolveContract (doc : AbiDocument) (c : Context) (r : Except ConversionError ResolvedType)
    (c' : Context) : Prop where
  entries_prefix : c.composites.entries <+: c'.composites.entries
  customTypes_prefix : c.customTypes <+: c'.customTypes
  imports_kept : ∀ s ∈ c.imports, s ∈ c'.imports
  nodes : ∀ t, r = .ok t → ∀ u, Occurs u t → NodeResolved doc c' u
  group_width : ∀ t w, r = .ok t →
    (DecodeStrategy.select t = .ok (.groups w) ∨ DecodeStrategy.select t = .ok (.group w)) → 2 ≤ w

/-- Resolution keeps its contract from every context whose composite names are distinct, as the
names of every registry are. -/
theorem resolve_contract (doc : AbiDocument) (expr : String) (c : Context)
    (hk : c.composites.entries.keys.Nodup) :
    ResolveContract doc c (((resolve doc expr).run).run c).1 (((resolve doc expr).run).run c).2 := by
  rcases hrun : ((resolve doc expr).run).run c with ⟨r, c'⟩
  have hext := Context.Extends.of_steps (resolveWith_movesBy doc _ expr c r c' hrun)
  have hnodes : ∀ t, r = .ok t → ∀ u, Occurs u t → NodeResolved doc c' u := by
    rintro t rfl
    have hres := resolveWith_resolved doc _ expr [] c t c' ⟨hk, by simp⟩ hrun
    exact hres.2 t (by simp)
  refine ⟨hext.composites.entries_grow, hext.customTypes, hext.imports, hnodes,
    fun t w ht hw => ?_⟩
  obtain ⟨n, ms, hshape, rfl⟩ := select_group_width hw
  have hnode := hnodes t ht t .refl
  rcases hshape with rfl | rfl
  · exact hnode.multi n ms rfl
  · exact hnode.multiVariadic n ms rfl

theorem pairContract_resolves_nested_groups :
    (Context.forDocument pairContract).composites.entries.keys.Nodup ∧
      ResolveContract pairContract (Context.forDocument pairContract)
        (((resolve pairContract "variadic<multi<Address,tuple<u8,BigUint>,List<Position>>>").run).run
          (Context.forDocument pairContract)).1
        (((resolve pairContract "variadic<multi<Address,tuple<u8,BigUint>,List<Position>>>").run).run
          (Context.forDocument pairContract)).2 :=
  ⟨List.nodup_nil, resolve_contract _ _ _ List.nodup_nil⟩

end ContractAbi
