import ContractAbi.Proofs.ResolvedTypes

/-!
# Composite names are canonical

Within one context, resolution gives one shape one name: two types resolved one after the other,
whatever was resolved or failed in between, are equal exactly when they are equal once every
composite name is blanked out. A composite of a resolved type is registered under its name with its
members as fields, entries persist as the context grows, and no two entries of a registry built by
registration have the same fields; so the names of two composites with the same members agree, and
by induction over the types, the names carry nothing the shapes do not.

Main statement: `composite_names_canonical`.
-/

namespace ContractAbi

namespace ResolvedType

mutual

/-- The type with every composite's name blanked out. -/
def erase : ResolvedType → ResolvedType
  | .list i => .list (erase i)
  | .variadic i => .variadic (erase i)
  | .multiVariadic _ ms => .multiVariadic "" (eraseList ms)
  | .multi _ ms => .multi "" (eraseList ms)
  | .tuple _ ms => .tuple "" (eraseList ms)
  | .primitive p => .primitive p
  | .record n => .record n
  | .enum n => .enum n

/-- Members with their composites' names blanked out. -/
def eraseList : List ResolvedType → List ResolvedType
  | x :: xs => erase x :: eraseList xs
  | [] => []

end

/-- Every composite node of `t` is registered in `r` under its name, with its members as fields. -/
def NamesRegistered (r : Registry) (t : ResolvedType) : Prop :=
  ∀ u n ms, Occurs u t → u.composite? = some (n, ms) → (n, compositeFields ms) ∈ r.entries

section Erase

variable {r : Registry}

theorem NamesRegistered.of_occurs {t u : ResolvedType} (h : NamesRegistered r t) (hu : Occurs u t) :
    NamesRegistered r u :=
  fun v n ms hv => h v n ms (hv.trans hu)

theorem NamesRegistered.part {t m : ResolvedType} (h : NamesRegistered r t) (hm : m ∈ t.parts) :
    NamesRegistered r m :=
  h.of_occurs (.part hm .refl)

/-- In a registry where no two entries have the same fields, two composites registered with the
same members have the same name. -/
theorem name_eq_of_registered (hr : (r.entries.map Prod.snd).Nodup) {n₁ n₂ : String}
    {ms : List ResolvedType} (h₁ : (n₁, compositeFields ms) ∈ r.entries)
    (h₂ : (n₂, compositeFields ms) ∈ r.entries) : n₁ = n₂ := by
  have h := List.inj_on_of_nodup_map hr h₁ h₂ rfl
  rw [Prod.mk.injEq] at h
  exact h.1

mutual

/-- In such a registry, types whose members are equal once names are erased are equal: equal
members carry the one name they are registered under. -/
theorem eq_of_erase_eq (hr : (r.entries.map Prod.snd).Nodup) :
    ∀ {t₁ t₂ : ResolvedType}, NamesRegistered r t₁ → NamesRegistered r t₂ →
      t₁.erase = t₂.erase → t₁ = t₂
  | .primitive p, t₂, _, _, h => by cases t₂ <;> simp_all [erase]
  | .record n, t₂, _, _, h => by cases t₂ <;> simp_all [erase]
  | .enum n, t₂, _, _, h => by cases t₂ <;> simp_all [erase]
  | .list a, t₂, h₁, h₂, h => by
    cases t₂ with
    | list b =>
      have hab : a = b := eq_of_erase_eq hr (h₁.part (by simp [parts])) (h₂.part (by simp [parts]))
        (by simpa [erase] using h)
      rw [hab]
    | _ => simp [erase] at h
  | .variadic a, t₂, h₁, h₂, h => by
    cases t₂ with
    | variadic b =>
      have hab : a = b := eq_of_erase_eq hr (h₁.part (by simp [parts])) (h₂.part (by simp [parts]))
        (by simpa [erase] using h)
      rw [hab]
    | _ => simp [erase] at h
  | .multiVariadic n₁ ms₁, t₂, h₁, h₂, h => by
    cases t₂ with
    | multiVariadic n₂ ms₂ =>
      simp only [erase, multiVariadic.injEq, true_and] at h
      have hms : ms₁ = ms₂ :=
        eq_of_eraseList_eq hr (fun m hm => h₁.part hm) (fun m hm => h₂.part hm) h
      subst hms
      rw [name_eq_of_registered hr (h₁ _ n₁ ms₁ .refl rfl) (h₂ _ n₂ ms₁ .refl rfl)]
    | _ => simp [erase] at h
  | .multi n₁ ms₁, t₂, h₁, h₂, h => by
    cases t₂ with
    | multi n₂ ms₂ =>
      simp only [erase, multi.injEq, true_and] at h
      have hms : ms₁ = ms₂ :=
        eq_of_eraseList_eq hr (fun m hm => h₁.part hm) (fun m hm => h₂.part hm) h
      subst hms
      rw [name_eq_of_registered hr (h₁ _ n₁ ms₁ .refl rfl) (h₂ _ n₂ ms₁ .refl rfl)]
    | _ => simp [erase] at h
  | .tuple n₁ ms₁, t₂, h₁, h₂, h => by
    cases t₂ with
    | tuple n₂ ms₂ =>
      simp only [erase, tuple.injEq, true_and] at h
      have hms : ms₁ = ms₂ :=
        eq_of_eraseList_eq hr (fun m hm => h₁.part hm) (fun m hm => h₂.part hm) h
      subst hms
      rw [name_eq_of_registered hr (h₁ _ n₁ ms₁ .refl rfl) (h₂ _ n₂ ms₁ .refl rfl)]
    | _ => simp [erase] at h

theorem eq_of_eraseList_eq (hr : (r.entries.map Prod.snd).Nodup) :
    ∀ {ms₁ ms₂ : List ResolvedType}, (∀ m ∈ ms₁, NamesRegistered r m) →
      (∀ m ∈ ms₂, NamesRegistered r m) → eraseList ms₁ = eraseList ms₂ → ms₁ = ms₂
  | [], [], _, _, _ => rfl
  | x :: xs, y :: ys, h₁, h₂, h => by
    simp only [eraseList, List.cons.injEq] at h
    rw [eq_of_erase_eq hr (h₁ x List.mem_cons_self) (h₂ y List.mem_cons_self) h.1,
      eq_of_eraseList_eq hr (fun m hm => h₁ m (List.mem_cons_of_mem x hm))
        (fun m hm => h₂ m (List.mem_cons_of_mem y hm)) h.2]
  | [], _ :: _, _, _, h => by simp [eraseList] at h
  | _ :: _, [], _, _, h => by simp [eraseList] at h

end

end Erase

end ResolvedType

open ResolvedType

/-! ## A sequence of resolutions -/

/-- Resolves expressions one after the other, each in the context the one before left, failures
included, and answers every outcome. -/
def resolveEach (doc : AbiDocument) (exprs : List String) :
    StateM Context (List (Except ConversionError ResolvedType)) :=
  exprs.mapM fun e => (resolve doc e).run

theorem resolveEach_cons (doc : AbiDocument) (e : String) (es : List String) (c : Context) :
    (resolveEach doc (e :: es)).run c =
      ((((resolve doc e).run).run c).1 ::
          ((resolveEach doc es).run (((resolve doc e).run).run c).2).1,
        ((resolveEach doc es).run (((resolve doc e).run).run c).2).2) := by
  simp only [resolveEach, List.mapM_cons]
  rfl

/-- Along a sequence of resolutions the context moves by resolution steps, and every type answered
stays resolved to the end. -/
theorem resolveEach_resolved (doc : AbiDocument) : ∀ (exprs : List String) (c : Context),
    c.composites.entries.keys.Nodup →
      Relation.ReflTransGen Context.Step c ((resolveEach doc exprs).run c).2 ∧
        ∀ (i : Nat) t, ((resolveEach doc exprs).run c).1[i]? = some (.ok t) →
          AllNodes (NodeResolved doc ((resolveEach doc exprs).run c).2) t
  | [], c, _ => ⟨.refl, fun i t h => by
    have hnil : ((resolveEach doc []).run c).1 = [] := rfl
    rw [hnil, List.getElem?_nil] at h
    cases h⟩
  | e :: es, c, hk => by
    rw [resolveEach_cons]
    rcases hrun : ((resolve doc e).run).run c with ⟨r, c₁⟩
    have hsteps₁ := resolveWith_movesBy doc _ e c r c₁ hrun
    have hk₁ := (Context.Extends.of_steps hsteps₁).composites.keys_nodup hk
    obtain ⟨hsteps₂, hrest⟩ := resolveEach_resolved doc es c₁ hk₁
    refine ⟨hsteps₁.trans hsteps₂, ?_⟩
    rintro (_ | i) t hi
    · simp only [List.getElem?_cons_zero, Option.some.injEq] at hi
      subst hi
      have hres := resolveWith_resolved doc _ e [] c t c₁ ⟨hk, by simp⟩ hrun
      exact (hres.steps hsteps₂).2 t (by simp)
    · exact hrest i t (by simpa using hi)

/-- Composite names are canonical within one context: two nodes resolved from no composites are
equal exactly when they are equal with every composite name blanked. -/
theorem composite_names_canonical (doc : AbiDocument) (exprs : List String) (c : Context)
    (hc : c.composites.entries = []) {i j : Nat} {t₁ t₂ u₁ u₂ : ResolvedType}
    (h₁ : ((resolveEach doc exprs).run c).1[i]? = some (.ok t₁))
    (h₂ : ((resolveEach doc exprs).run c).1[j]? = some (.ok t₂))
    (hu₁ : Occurs u₁ t₁) (hu₂ : Occurs u₂ t₂) :
    u₁ = u₂ ↔ u₁.erase = u₂.erase := by
  have hk : c.composites.entries.keys.Nodup := by simp [hc, OrderedMap.keys]
  obtain ⟨hsteps, hres⟩ := resolveEach_resolved doc exprs c hk
  have hwf := (Context.Extends.of_steps hsteps).composites.wf (Registry.Wf.of_entries_nil hc)
  have hnames : ∀ t, AllNodes (NodeResolved doc ((resolveEach doc exprs).run c).2) t →
      NamesRegistered ((resolveEach doc exprs).run c).2.composites t :=
    fun t ht u n ms hu hn => OrderedMap.mem_of_get? ((ht u hu).registered n ms hn)
  refine ⟨fun h => h ▸ rfl, eq_of_erase_eq hwf.fields_nodup ?_ ?_⟩
  · exact (hnames t₁ (hres i t₁ h₁)).of_occurs hu₁
  · exact (hnames t₂ (hres j t₂ h₂)).of_occurs hu₂

/-- A tuple resolved at top level, then a resolution that fails after resolving a member, then
the same tuple inside a list. -/
def repeatedTuples : List String :=
  ["tuple<u32,Address>", "multi<u8,Missing>", "List<tuple<u32,Address>>"]

/-- The first tuple registered for a document that declares `Position`. -/
def addressTuple : ResolvedType := .tuple "ComplexType0" [.primitive .u32, .primitive .address]

theorem repeated_tuple_keeps_its_name :
    (Context.forDocument pairContract).composites.entries = [] ∧
      ((resolveEach pairContract repeatedTuples).run (Context.forDocument pairContract)).1[0]? =
        some (.ok addressTuple) ∧
      ((resolveEach pairContract repeatedTuples).run (Context.forDocument pairContract)).1[2]? =
        some (.ok (.list addressTuple)) ∧
      Occurs addressTuple addressTuple ∧ Occurs addressTuple (.list addressTuple) ∧
      (addressTuple = addressTuple ↔ addressTuple.erase = addressTuple.erase) := by
  have h₁ : ((resolveEach pairContract repeatedTuples).run (Context.forDocument pairContract)).1[0]? =
      some (.ok addressTuple) := rfl
  have h₂ : ((resolveEach pairContract repeatedTuples).run (Context.forDocument pairContract)).1[2]? =
      some (.ok (.list addressTuple)) := rfl
  have hpart : Occurs addressTuple (.list addressTuple) := .part (by simp [parts]) .refl
  exact ⟨rfl, h₁, h₂, .refl, hpart,
    composite_names_canonical pairContract repeatedTuples _ rfl h₁ h₂ .refl hpart⟩

end ContractAbi
