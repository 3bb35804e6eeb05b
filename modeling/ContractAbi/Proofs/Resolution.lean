import ContractAbi.Conversion.Model

/-!
# Running resolution

Resolution and the declaration of named types run in an exception monad over a state: a step
answers a value or fails, and leaves a state behind either way. This module gives the equations
of such runs, shows that conversion reads nothing of a document but its declared types, and
names the failures resolution can end in: never an endpoint failure, which only endpoint
analysis wraps.
-/

namespace ContractAbi

section Run

variable {σ ε α β : Type}

/-- A step that answered hands its value to what follows. -/
theorem run_bind_of_ok {m : ExceptT ε (StateM σ) α} {f : α → ExceptT ε (StateM σ) β}
    {s s' : σ} {a : α} (h : (m.run).run s = (.ok a, s')) :
    ((m >>= f).run).run s = ((f a).run).run s' := by
  simp only [ExceptT.run_bind, StateT.run_bind, h]
  rfl

/-- A step that failed ends the sequence where it stopped. -/
theorem run_bind_of_error {m : ExceptT ε (StateM σ) α} {f : α → ExceptT ε (StateM σ) β}
    {s s' : σ} {e : ε} (h : (m.run).run s = (.error e, s')) :
    ((m >>= f).run).run s = (.error e, s') := by
  simp only [ExceptT.run_bind, StateT.run_bind, h]
  rfl

theorem run_throw_bind {e : ε} {f : α → ExceptT ε (StateM σ) β} {s : σ} :
    (((throw e : ExceptT ε (StateM σ) α) >>= f).run).run s = (.error e, s) :=
  rfl

/-- A sequence of two steps either stops in the first or runs the second from where the first
ended. -/
theorem run_bind_cases {m : ExceptT ε (StateM σ) α} {f : α → ExceptT ε (StateM σ) β}
    {s s'' : σ} {r : Except ε β} (h : ((m >>= f).run).run s = (r, s'')) :
    (∃ e, (m.run).run s = (.error e, s'') ∧ r = .error e) ∨
      ∃ a s', (m.run).run s = (.ok a, s') ∧ ((f a).run).run s' = (r, s'') := by
  rcases hm : (m.run).run s with ⟨_ | a, s'⟩
  · rw [run_bind_of_error hm] at h
    cases h
    exact .inl ⟨_, rfl, rfl⟩
  · rw [run_bind_of_ok hm] at h
    exact .inr ⟨a, s', rfl, h⟩

/-- Every failure a run of `m` can end in, from any state, satisfies `P`. -/
def FailsOnly (P : ε → Prop) (m : ExceptT ε (StateM σ) α) : Prop :=
  ∀ s e s', (m.run).run s = (.error e, s') → P e

namespace FailsOnly

variable {P : ε → Prop}

theorem pure (a : α) : FailsOnly P (pure a : ExceptT ε (StateM σ) α) := by
  intro s e s' h
  cases h

theorem throw {e : ε} (h : P e) : FailsOnly P (throw e : ExceptT ε (StateM σ) α) := by
  intro s e' s' hr
  cases hr
  exact h

/-- A step that cannot fail, such as reading or changing the state. -/
theorem of_ok {m : ExceptT ε (StateM σ) α} (h : ∀ s, ∃ a s', (m.run).run s = (.ok a, s')) :
    FailsOnly P m := by
  intro s e s' hr
  obtain ⟨a, s'', h'⟩ := h s
  rw [h'] at hr
  cases hr

theorem bind {m : ExceptT ε (StateM σ) α} {f : α → ExceptT ε (StateM σ) β}
    (hm : FailsOnly P m) (hf : ∀ a, FailsOnly P (f a)) : FailsOnly P (m >>= f) := by
  intro s e s'' h
  rcases run_bind_cases h with ⟨e', hrun, he⟩ | ⟨a, s', _, hrun⟩
  · cases he
    exact hm s e s'' hrun
  · exact hf a s' e s'' hrun

theorem mapM {f : α → ExceptT ε (StateM σ) β} :
    ∀ {xs : List α}, (∀ x ∈ xs, FailsOnly P (f x)) → FailsOnly P (xs.mapM f)
  | [], _ => by
    simpa only [List.mapM_nil] using FailsOnly.pure []
  | x :: xs, h => by
    rw [List.mapM_cons]
    refine bind (h x List.mem_cons_self) fun b => bind (mapM fun y hy => h y ?_) fun bs => pure _
    exact List.mem_cons_of_mem x hy

end FailsOnly

/-- Whenever `m` answers from a state satisfying `P`, its answer and the state it leaves satisfy
`Q`. What a failure leaves behind is not constrained. -/
def Triple (P : σ → Prop) (m : ExceptT ε (StateM σ) α) (Q : α → σ → Prop) : Prop :=
  ∀ s a s', P s → (m.run).run s = (.ok a, s') → Q a s'

namespace Triple

variable {P P' : σ → Prop} {Q Q' : α → σ → Prop}

theorem pure {a : α} (h : ∀ s, P s → Q a s) : Triple P (pure a : ExceptT ε (StateM σ) α) Q := by
  intro s a' s' hs hr
  cases hr
  exact h s hs

theorem throw {e : ε} : Triple P (throw e : ExceptT ε (StateM σ) α) Q := by
  intro s a s' _ hr
  cases hr

theorem get : Triple P (get : ExceptT ε (StateM σ) σ) fun a s => a = s ∧ P s := by
  intro s a s' hs hr
  cases hr
  exact ⟨rfl, hs⟩

theorem conseq {m : ExceptT ε (StateM σ) α} (ht : Triple P m Q) (hp : ∀ s, P' s → P s)
    (hq : ∀ a s, Q a s → Q' a s) : Triple P' m Q' :=
  fun s a s' hs hr => hq a s' (ht s a s' (hp s hs) hr)

theorem bind {m : ExceptT ε (StateM σ) α} {f : α → ExceptT ε (StateM σ) β} {R : β → σ → Prop}
    (hm : Triple P m Q) (hf : ∀ a, Triple (Q a) (f a) R) : Triple P (m >>= f) R := by
  intro s b s'' hs h
  rcases run_bind_cases h with ⟨e, -, he⟩ | ⟨a, s', hrun, hrest⟩
  · cases he
  · exact hf a s' b s'' (hm s a s' hs hrun) hrest

theorem modify {f : σ → σ} {R : PUnit → σ → Prop} (h : ∀ s, P s → R PUnit.unit (f s)) :
    Triple P (modify f : ExceptT ε (StateM σ) PUnit) R := by
  intro s a s' hs hr
  cases hr
  exact h s hs

theorem mapM_acc {f : α → ExceptT ε (StateM σ) β} {I : List β → σ → Prop} :
    ∀ {xs : List α} {acc : List β}, (∀ x ∈ xs, ∀ acc, Triple (I acc) (f x) fun b => I (acc ++ [b])) →
      Triple (I acc) (xs.mapM f) fun bs => I (acc ++ bs)
  | [], acc, _ => by
    rw [List.mapM_nil]
    exact pure fun s hs => by simpa using hs
  | x :: xs, acc, h => by
    rw [List.mapM_cons]
    refine bind (h x List.mem_cons_self acc) fun b => bind (mapM_acc fun y hy => h y ?_) fun bs => ?_
    · exact List.mem_cons_of_mem x hy
    · exact pure fun s hs => by simpa using hs

/-- A map over a list keeps an invariant of the answers so far when each step extends it. -/
theorem mapM {f : α → ExceptT ε (StateM σ) β} {I : List β → σ → Prop} {xs : List α}
    (h : ∀ x ∈ xs, ∀ acc, Triple (I acc) (f x) fun b => I (acc ++ [b])) :
    Triple (I []) (xs.mapM f) I :=
  mapM_acc h

end Triple

end Run

namespace ConversionError

/-- A failure wrapped with the name of the endpoint it happened in. -/
def isEndpoint : ConversionError → Bool
  | .inEndpoint .. => true
  | _ => false

end ConversionError

/-- Failures of resolution and declaration: any but an endpoint failure. -/
abbrev NotEndpoint (e : ConversionError) : Prop := e.isEndpoint = false

theorem registerComposite_failsOnly (ms : List ResolvedType) :
    FailsOnly NotEndpoint (registerComposite ms) :=
  FailsOnly.of_ok fun _ => ⟨_, _, rfl⟩

/-- Resolution only fails on an expression it cannot read or a name the document lacks. -/
theorem resolveMembers_failsOnly {member : String → Resolve ResolvedType}
    (h : ∀ x, FailsOnly NotEndpoint (member x)) (inner : String) :
    FailsOnly NotEndpoint (resolveMembers member inner) := by
  unfold resolveMembers
  split
  · exact FailsOnly.throw rfl
  · exact FailsOnly.mapM fun x _ => h x

theorem resolveWith_failsOnly (doc : AbiDocument) :
    ∀ (fuel : Nat) (expr : String), FailsOnly NotEndpoint (resolveWith doc fuel expr)
  | 0, _ => FailsOnly.throw rfl
  | fuel + 1, expr => by
    have members := resolveMembers_failsOnly (resolveWith_failsOnly doc fuel)
    unfold resolveWith
    split
    · exact FailsOnly.throw rfl
    · exact FailsOnly.bind (FailsOnly.of_ok fun c => ⟨_, _, rfl⟩) fun _ => FailsOnly.pure _
    · split
      · exact FailsOnly.pure _
      · exact FailsOnly.pure _
      · exact FailsOnly.throw rfl
    · exact FailsOnly.bind (resolveWith_failsOnly doc fuel _) fun _ => FailsOnly.pure _
    · exact FailsOnly.bind (resolveWith_failsOnly doc fuel _) fun _ => FailsOnly.pure _
    · refine FailsOnly.bind (members _) fun ms => ?_
      split
      · exact FailsOnly.pure _
      · exact FailsOnly.bind (registerComposite_failsOnly _) fun _ => FailsOnly.pure _
    · refine FailsOnly.bind (members _) fun ms => ?_
      split
      · exact FailsOnly.pure _
      · exact FailsOnly.bind (registerComposite_failsOnly _) fun _ => FailsOnly.pure _
    · exact FailsOnly.bind (members _) fun ms =>
        FailsOnly.bind (registerComposite_failsOnly _) fun _ => FailsOnly.pure _

theorem resolve_failsOnly (doc : AbiDocument) (expr : String) :
    FailsOnly NotEndpoint (resolve doc expr) :=
  resolveWith_failsOnly doc _ expr

theorem resolveFields_failsOnly (doc : AbiDocument) (owner : String) :
    ∀ fields : List StructField, FailsOnly NotEndpoint (resolveFields doc owner fields)
  | [] => FailsOnly.pure []
  | f :: fs => by
    refine FailsOnly.bind (resolve_failsOnly doc f.typeExpr) fun ty => ?_
    have rest := FailsOnly.bind (resolveFields_failsOnly doc owner fs) fun fs' =>
      (FailsOnly.pure (⟨f.name, ty⟩ :: fs') : FailsOnly NotEndpoint (pure _ : Resolve _))
    split
    · exact FailsOnly.bind (FailsOnly.throw rfl) fun _ => rest
    · exact rest

theorem checkVariants_error {name : String} :
    ∀ {seen : List Nat} {variants : List EnumVariant} {e : ConversionError},
      checkVariants name seen variants = .error e → NotEndpoint e
  | _, [], _, h => by cases h
  | seen, v :: vs, e, h => by
    unfold checkVariants at h
    split at h
    · cases h; rfl
    · split at h
      · cases h; rfl
      · cases hr : checkVariants name (v.discriminant :: seen) vs with
        | error e' =>
          rw [hr] at h
          cases h
          exact checkVariants_error hr
        | ok _ =>
          rw [hr] at h
          cases h

theorem resolveVariants_error {name : String} {variants : List EnumVariant} {e : ConversionError}
    (h : resolveVariants name variants = .error e) : NotEndpoint e := by
  unfold resolveVariants at h
  split at h
  · cases h; rfl
  · exact checkVariants_error h

/-- A zero value is missing only for an enum with no variants. -/
theorem zeroValue_error {c : Catalog} {ty : ResolvedType} {e : ConversionError}
    (h : Binding.zeroValue c ty = .error e) : NotEndpoint e := by
  cases ty <;> simp only [Binding.zeroValue] at h <;> try cases h
  split at h
  · cases h
  · cases h; rfl

theorem forM_error {α ε : Type} {f : α → Except ε PUnit} {e : ε} :
    ∀ {xs : List α}, xs.forM f = .error e → ∃ x ∈ xs, f x = .error e
  | [], h => by cases h
  | x :: xs, h => by
    unfold List.forM at h
    cases hx : f x with
    | error e' =>
      rw [hx] at h
      cases h
      exact ⟨x, List.mem_cons_self, hx⟩
    | ok _ =>
      rw [hx] at h
      obtain ⟨y, hy, hfy⟩ := forM_error h
      exact ⟨y, List.mem_cons_of_mem x hy, hfy⟩

theorem checkZeroValues_error {c : Catalog} {e : ConversionError}
    (h : checkZeroValues c = .error e) : NotEndpoint e := by
  obtain ⟨⟨_, fs⟩, -, hr⟩ := forM_error h
  obtain ⟨f, -, hf⟩ := forM_error hr
  cases hz : Binding.zeroValue c f.type with
  | error e' =>
    rw [hz] at hf
    cases hf
    exact zeroValue_error hz
  | ok _ =>
    rw [hz] at hf
    cases hf

theorem Declare.lift_failsOnly {α : Type} {P : ConversionError → Prop} {m : Resolve α}
    (h : FailsOnly P m) : FailsOnly P (Declare.lift m) := by
  intro s e s' hr
  have hrun : ((Declare.lift m).run).run s = (((m.run).run s.2).1, (s.1, ((m.run).run s.2).2)) :=
    rfl
  rcases hm : (m.run).run s.2 with ⟨r, c⟩
  rw [hrun, hm] at hr
  cases hr
  exact h s.2 e c hm

theorem declareAll_failsOnly (doc : AbiDocument) :
    ∀ types : List (String × TypeDefinition), FailsOnly NotEndpoint (declareAll doc types)
  | [] => FailsOnly.pure ()
  | (name, .struct _ fields) :: rest =>
    FailsOnly.bind (Declare.lift_failsOnly (resolveFields_failsOnly doc name fields)) fun _ =>
      FailsOnly.bind (FailsOnly.of_ok fun _ => ⟨_, _, rfl⟩) fun _ => declareAll_failsOnly doc rest
  | (name, .enum _ variants) :: rest => by
    refine FailsOnly.bind ?_ fun _ =>
      FailsOnly.bind (FailsOnly.of_ok fun _ => ⟨_, _, rfl⟩) fun _ => declareAll_failsOnly doc rest
    cases hv : resolveVariants name variants with
    | error e => exact FailsOnly.throw (resolveVariants_error hv)
    | ok vs => exact FailsOnly.pure vs

/-- Declaring the named types never fails with an endpoint failure. -/
theorem declareTypes_failsOnly (doc : AbiDocument) : FailsOnly NotEndpoint (declareTypes doc) := by
  refine FailsOnly.bind (declareAll_failsOnly doc doc.types) fun _ =>
    FailsOnly.bind (FailsOnly.of_ok fun _ => ⟨_, _, rfl⟩) fun ⟨d, c⟩ => ?_
  dsimp only
  cases hz : checkZeroValues (d.catalog c) with
  | error e => exact FailsOnly.throw (checkZeroValues_error hz)
  | ok _ => exact FailsOnly.pure ()

/-! ## Only the declared types matter -/

section Congr

variable {d₁ d₂ : AbiDocument} (h : d₁.types = d₂.types)
include h

theorem resolveWith_congr : resolveWith d₁ = resolveWith d₂ := by
  funext fuel
  induction fuel with
  | zero => rfl
  | succ n ih =>
    funext expr
    simp only [resolveWith, h, ih]

theorem resolve_congr : resolve d₁ = resolve d₂ := by
  funext expr
  simp only [resolve, resolveWith_congr h]

theorem classify_congr : classify d₁ = classify d₂ := by
  funext e
  simp only [classify, resolveInputs, resolveOutputs, resolve_congr h]

theorem resolveFields_congr : resolveFields d₁ = resolveFields d₂ := by
  funext owner fields
  induction fields with
  | nil => rfl
  | cons f fs ih => simp only [resolveFields, resolve_congr h, ih]

theorem declareAll_congr : declareAll d₁ = declareAll d₂ := by
  funext types
  induction types with
  | nil => rfl
  | cons t ts ih =>
    obtain ⟨name, _ | _⟩ := t <;> simp only [declareAll, resolveFields_congr h, ih]

theorem declareTypes_congr : declareTypes d₁ = declareTypes d₂ := by
  simp only [declareTypes, declareAll_congr h, h]

theorem step_congr : Progress.step d₁ = Progress.step d₂ := by
  funext policy p e
  simp only [Progress.step, classify_congr h]

end Congr

end ContractAbi
