import Mathlib.Logic.Relation
import ContractAbi.Binding.Encode
import ContractAbi.Proofs.NestedRoundTrip

/-!
# Encoder synthesis ends exactly on acyclic types

The argument encoder expands a type by following its references: a record or a tuple to the
types of its catalog fields, a `multi` or `variadic<multi>` to its members, a list or a simple
variadic to its item (`Catalog.Refers`). It stops with `none` when it enters a record or tuple
already being expanded; that stands for the original's recursion without end.

It answers exactly when no named record or composite reachable from the type lies on a cycle of
references. One way, an answer rules out every cycle: a cycle would bring the expansion back into
a record it is expanding. The other way, along one line of expansion every record or tuple
expands a different catalog entry, and between two entries the type only gets shallower, so the
fuel `encodeFuel` is enough.

What it answers is a sequence of pushes and loops (`Binding.Emitted`): every loop opens with
`for item{k} in ... {` and closes with `}` at its own indentation, and its body is one loop
deeper, so the loop variable of a loop inside `k` loops is `item{k}`.

Main statement: `encoder_terminates_exactly_on_acyclic`.
-/

namespace ContractAbi

open ResolvedType Relation

/-! ## References and catalog entries -/

namespace Catalog

/-- One reference the encoder follows: a record or tuple to the types of its catalog fields, a
`multi` or `variadic<multi>` to its members, a list or simple variadic to its item. -/
inductive Refers (c : Catalog) : ResolvedType → ResolvedType → Prop
  | field {t : ResolvedType} {fs : List Field} {f : Field} :
      c.fieldsOf? t = some fs → f ∈ fs → Refers c t f.type
  | member {t : ResolvedType} {n : String} {ms : List ResolvedType} {m : ResolvedType} :
      (t = .multi n ms ∨ t = .multiVariadic n ms) → m ∈ ms → Refers c t m
  | item {t i : ResolvedType} : (t = .list i ∨ t = .variadic i) → Refers c t i

/-- The keys of the catalog's records and composites, each tagged with its table. -/
def entryKeys (c : Catalog) : List (String ⊕ String) :=
  c.records.keys.map .inl ++ c.composites.keys.map .inr

theorem length_entryKeys (c : Catalog) : c.entryKeys.length = c.entryCount := by
  simp [entryKeys, entryCount, OrderedMap.keys]

end Catalog

namespace ResolvedType

/-- The catalog entry a record or a tuple expands through. -/
def entryKey : ResolvedType → Option (String ⊕ String)
  | .tuple n _ => some (.inr n)
  | .record n => some (.inl n)
  | _ => none

theorem isSome_entryKey {t : ResolvedType} : t.entryKey.isSome = t.isRecordLike := by
  cases t <;> rfl

theorem depth_pos (t : ResolvedType) : 0 < t.depth := by
  cases t <;> simp [depth]

/-- A record or a tuple is a named record or a composite. -/
theorem named_of_isRecordLike {t : ResolvedType} (h : t.isRecordLike = true) :
    (∃ n, t = .record n) ∨ t.composite?.isSome = true := by
  cases t <;> simp_all [isRecordLike, composite?]

end ResolvedType

namespace Catalog

variable {c : Catalog} {t t' x : ResolvedType} {fs : List Field}

/-- A type with catalog fields expands through an entry of the catalog. -/
theorem entryKey_mem_of_fieldsOf? (h : c.fieldsOf? t = some fs) :
    ∃ k, t.entryKey = some k ∧ k ∈ c.entryKeys := by
  cases t with
  | record n =>
    exact ⟨_, rfl, List.mem_append_left _ (List.mem_map_of_mem (List.mem_map_of_mem
      (OrderedMap.mem_of_get? (k := n) h)))⟩
  | tuple n ms =>
    exact ⟨_, rfl, List.mem_append_right _ (List.mem_map_of_mem (List.mem_map_of_mem
      (OrderedMap.mem_of_get? (k := n) h)))⟩
  | _ => simp [fieldsOf?] at h

/-- Two types that expand through one entry have the same fields. -/
theorem fieldsOf?_eq_of_entryKey (h : t.entryKey = t'.entryKey) (ht : t.entryKey.isSome) :
    c.fieldsOf? t = c.fieldsOf? t' := by
  cases t <;> cases t' <;> simp_all [entryKey, fieldsOf?]

/-- A record or a tuple refers only to the types of its fields. -/
theorem Refers.of_recordLike (h : Refers c t x) (ht : t.isRecordLike = true) :
    ∃ fs f, c.fieldsOf? t = some fs ∧ f ∈ fs ∧ x = f.type := by
  cases h with
  | field hfs hf => exact ⟨_, _, hfs, hf, rfl⟩
  | member hm _ => rcases hm with rfl | rfl <;> cases ht
  | item hi => rcases hi with rfl | rfl <;> cases ht

/-- Any other type refers to a part of itself, which is shallower. -/
theorem Refers.depth_lt (h : Refers c t x) (ht : t.isRecordLike = false) : x.depth < t.depth := by
  cases h with
  | field hfs _ => cases t <;> simp_all [fieldsOf?, isRecordLike]
  | member hm hx =>
    have := Wire.depth_le_depthList hx
    rcases hm with rfl | rfl <;> simp only [ResolvedType.depth] <;> omega
  | item hi => rcases hi with rfl | rfl <;> simp [ResolvedType.depth]

/-- The fields of a record or composite are no deeper than the catalog. -/
theorem depth_le_of_fieldsOf? {f : Field} (h : c.fieldsOf? t = some fs) (hf : f ∈ fs) :
    f.type.depth ≤ c.depth := by
  cases t with
  | record n => exact Wire.depth_le_of_field h hf
  | tuple n ms =>
    calc f.type.depth ≤ fs.foldl (fun m f => max m f.type.depth) 0 :=
        (Wire.le_foldl_max (fun f : Field => f.type.depth) fs 0).2 f hf
      _ ≤ c.depth := (Wire.le_foldl_max (fun e : String × List Field => e.2.foldl
          (fun m f => max m f.type.depth) 0) (c.records ++ c.composites) 0).2 (n, fs)
          (List.mem_append_right _ (OrderedMap.mem_of_get? h))
  | _ => simp [fieldsOf?] at h

/-- A type reached again from a type of the same entry lies on a cycle: both refer to the same
fields. -/
theorem cycle_of_same_entry (h : TransGen (Refers c) t t') (hkey : t.entryKey = t'.entryKey)
    (ht : t.isRecordLike = true) : TransGen (Refers c) t' t' := by
  obtain ⟨x, hx, hback⟩ := TransGen.head'_iff.1 h
  obtain ⟨fs, f, hfs, hf, rfl⟩ := hx.of_recordLike ht
  have hsame : c.fieldsOf? t' = some fs := by
    rw [← fieldsOf?_eq_of_entryKey hkey (by rw [isSome_entryKey, ht]), hfs]
  exact TransGen.head' (.field hsame hf) hback

/-- Every cycle passes through a record or a tuple: the other references lead to shallower
types. -/
theorem exists_recordLike_of_transGen (h : TransGen (Refers c) t t') :
    t'.depth < t.depth ∨
      ∃ r, r.isRecordLike = true ∧ ReflTransGen (Refers c) t r ∧ TransGen (Refers c) r t' := by
  induction h using TransGen.head_induction_on with
  | single hx =>
    rename_i u
    cases hu : u.isRecordLike
    · exact .inl (hx.depth_lt hu)
    · exact .inr ⟨u, hu, .refl, .single hx⟩
  | head hx hrest ih =>
    rename_i u v
    cases hu : u.isRecordLike
    · rcases ih with hlt | ⟨r, hr, hvr, hrt⟩
      · exact .inl (hlt.trans (hx.depth_lt hu))
      · exact .inr ⟨r, hr, ReflTransGen.head hx hvr, hrt⟩
    · exact .inr ⟨u, hu, .refl, TransGen.head hx hrest⟩

/-- A record or a tuple refers to the types of its catalog fields, any other type to its parts. -/
theorem refers_iff : Refers c t x ↔
    (t.isRecordLike = true ∧ ∃ fs f, c.fieldsOf? t = some fs ∧ f ∈ fs ∧ x = f.type) ∨
      (t.isRecordLike = false ∧ x ∈ t.parts) := by
  constructor
  · intro h
    cases ht : t.isRecordLike
    · refine .inr ⟨rfl, ?_⟩
      cases h with
      | field hfs _ => cases t <;> simp_all [fieldsOf?, isRecordLike]
      | member hm hx => rcases hm with rfl | rfl <;> simpa [parts] using hx
      | item hi => rcases hi with rfl | rfl <;> simp [parts]
    · exact .inl ⟨rfl, h.of_recordLike ht⟩
  · rintro (⟨-, fs, f, hfs, hf, rfl⟩ | ⟨ht, hx⟩)
    · exact .field hfs hf
    · cases t with
      | list i =>
        obtain rfl : x = i := by simpa [parts] using hx
        exact .item (.inl rfl)
      | variadic i =>
        obtain rfl : x = i := by simpa [parts] using hx
        exact .item (.inr rfl)
      | multi n ms => exact .member (.inl rfl) (by simpa [parts] using hx)
      | multiVariadic n ms => exact .member (.inr rfl) (by simpa [parts] using hx)
      | _ => simp_all [parts, isRecordLike]

theorem exists_recordLike_on_cycle (h : TransGen (Refers c) t t) :
    ∃ r, r.isRecordLike = true ∧ ReflTransGen (Refers c) t r ∧ TransGen (Refers c) r r := by
  rcases exists_recordLike_of_transGen h with hlt | ⟨r, hr, htr, hrt⟩
  · exact absurd hlt (Nat.lt_irrefl _)
  · exact ⟨r, hr, htr, hrt.trans_left htr⟩

end Catalog

/-! ## Concatenating the pieces of an expansion -/

section Concat

variable {α : Type} {g : α → Option String} {step : String → α → Option String}
  (hstep : ∀ acc x, step acc x = (acc ++ ·) <$> g x)
include hstep

/-- Appending pieces in turn answers when every piece does. -/
theorem foldlM_concat_isSome :
    ∀ {l : List α} {init : String}, (∀ x ∈ l, (g x).isSome) → (l.foldlM step init).isSome
  | [], _, _ => rfl
  | x :: l, init, h => by
    obtain ⟨t, ht⟩ := Option.isSome_iff_exists.1 (h x List.mem_cons_self)
    rw [List.foldlM_cons, hstep, ht]
    exact foldlM_concat_isSome fun y hy => h y (List.mem_cons_of_mem x hy)

/-- Appending pieces in turn answers only when every piece does. -/
theorem foldlM_concat_pieces :
    ∀ {l : List α} {init s : String}, l.foldlM step init = some s → ∀ x ∈ l, (g x).isSome
  | x :: l, init, s, h, y, hy => by
    rw [List.foldlM_cons, hstep] at h
    cases hx : g x with
    | none => simp [hx] at h
    | some t =>
      rw [hx] at h
      rcases List.mem_cons.1 hy with rfl | hy
      · rw [hx]
        rfl
      · exact foldlM_concat_pieces h y hy

/-- A property of texts kept by appending holds of the concatenation when it holds of the start
and of every piece. -/
theorem foldlM_concat_closed {P : String → Prop} (happ : ∀ a b, P a → P b → P (a ++ b)) :
    ∀ {l : List α} {init s : String}, l.foldlM step init = some s → P init →
      (∀ x ∈ l, ∀ t, g x = some t → P t) → P s
  | [], init, s, h, hinit, _ => by
    cases h
    exact hinit
  | x :: l, init, s, h, hinit, hpieces => by
    rw [List.foldlM_cons, hstep] at h
    cases hx : g x with
    | none => simp [hx] at h
    | some t =>
      rw [hx] at h
      exact foldlM_concat_closed happ h (happ _ _ hinit (hpieces x List.mem_cons_self t hx))
        fun y hy => hpieces y (List.mem_cons_of_mem x hy)

end Concat

/-! ## The shape of encoder text -/

namespace Binding

/-- Encoder statements at `level` inside `depth` loops: pushes, and loops over `item{depth}`
whose bodies sit one step further in and which close at their own indentation. -/
inductive Emitted : Nat → Nat → String → Prop
  | nil {level depth : Nat} : Emitted level depth ""
  | push {level depth : Nat} {e rest : String} : Emitted level depth rest →
      Emitted level depth ("".pushn ' ' level ++ "args.push(" ++ e ++ ".to_wire_arg());\n" ++ rest)
  | loop {level depth : Nat} {e body rest : String} : Emitted (level + 2) (depth + 1) body →
      Emitted level depth rest →
      Emitted level depth ("".pushn ' ' level ++ "for " ++ ("item" ++ toString depth) ++ " in " ++
        e ++ ".iter() \x7b\n" ++ body ++ "".pushn ' ' level ++ "\x7d\n" ++ rest)

namespace Emitted

variable {level depth : Nat}

theorem append {a b : String} (ha : Emitted level depth a) (hb : Emitted level depth b) :
    Emitted level depth (a ++ b) := by
  induction ha with
  | nil => simpa using hb
  | push _ ih =>
    rw [String.append_assoc]
    exact .push (ih hb)
  | loop hbody _ _ ih =>
    rw [String.append_assoc]
    exact .loop hbody (ih hb)

theorem single_push (e : String) :
    Emitted level depth ("".pushn ' ' level ++ "args.push(" ++ e ++ ".to_wire_arg());\n") := by
  simpa using (Emitted.push (e := e) Emitted.nil : Emitted level depth _)

theorem single_loop {e body : String} (hbody : Emitted (level + 2) (depth + 1) body) :
    Emitted level depth ("".pushn ' ' level ++ "for " ++ ("item" ++ toString depth) ++ " in " ++
      e ++ ".iter() \x7b\n" ++ body ++ "".pushn ' ' level ++ "\x7d\n") := by
  simpa using (Emitted.loop (e := e) hbody Emitted.nil : Emitted level depth _)

end Emitted

/-! ## One step of expansion -/

theorem mem_zip_range {m : ResolvedType} {ms : List ResolvedType} (hm : m ∈ ms) :
    ∃ i, (i, m) ∈ (List.range ms.length).zip ms := by
  obtain ⟨i, hi, rfl⟩ := List.mem_iff_getElem.1 hm
  exact ⟨i, List.mem_iff_getElem.2 ⟨i, by simpa using hi, by simp⟩⟩

variable {c : Catalog} {fuel level depth : Nat} {path : List ResolvedType} {expr : String}
  {ty : ResolvedType}

/-- What one step of expansion needs in order to answer: a record or tuple is not being expanded
already, and every type it refers to is expanded, with the record or tuple on the path. -/
theorem encodeWith_succ_inv (h : (encodeWith c (fuel + 1) path expr ty level depth).isSome) :
    (ty.isRecordLike = true → ty ∉ path) ∧
      ∀ x, Catalog.Refers c ty x → ∃ e l d,
        (encodeWith c fuel (if ty.isRecordLike then ty :: path else path) e x l d).isSome := by
  have hmembers : ∀ {e : String} {l d : Nat} {ms : List ResolvedType},
      (((List.range ms.length).zip ms).foldlM (fun acc (p : Nat × ResolvedType) =>
        (acc ++ ·) <$> encodeWith c fuel path (e ++ ".var" ++ toString p.1) p.2 l d) "").isSome →
      ∀ m ∈ ms, ∃ e l d, (encodeWith c fuel path e m l d).isSome := by
    intro e l d ms hfold m hm
    obtain ⟨s, hs⟩ := Option.isSome_iff_exists.1 hfold
    obtain ⟨i, hi⟩ := mem_zip_range hm
    exact ⟨_, _, _, foldlM_concat_pieces (fun _ _ => rfl) hs _ hi⟩
  cases ty with
  | primitive p =>
    exact ⟨by simp [isRecordLike], fun x hx => by simp [Catalog.refers_iff, parts, isRecordLike] at hx⟩
  | enum n =>
    exact ⟨by simp [isRecordLike], fun x hx => by simp [Catalog.refers_iff, parts, isRecordLike] at hx⟩
  | record n | tuple n ms =>
    simp only [encodeWith] at h
    split at h
    · simp at h
    · rename_i hnew
      refine ⟨fun _ hmem => hnew (List.contains_iff_mem.2 hmem), fun x hx => ?_⟩
      obtain ⟨-, fs, f, hfs, hf, rfl⟩ | ⟨hr, -⟩ := Catalog.refers_iff.1 hx
      · rw [hfs, Option.getD_some] at h
        obtain ⟨s, hs⟩ := Option.isSome_iff_exists.1 h
        exact ⟨_, _, _, foldlM_concat_pieces (fun _ _ => rfl) hs f hf⟩
      · cases hr
  | multi n ms =>
    simp only [encodeWith] at h
    refine ⟨by simp [isRecordLike], fun x hx => ?_⟩
    exact hmembers h x (by simpa [Catalog.refers_iff, parts, isRecordLike] using hx)
  | list i | variadic i =>
    simp only [encodeWith] at h
    refine ⟨by simp [isRecordLike], fun x hx => ?_⟩
    have hi : x = i := by simpa [Catalog.refers_iff, parts, isRecordLike] using hx
    subst hi
    exact ⟨_, _, _, Option.isSome_of_isSome_bind h⟩
  | multiVariadic n ms =>
    simp only [encodeWith] at h
    refine ⟨by simp [isRecordLike], fun x hx => ?_⟩
    exact hmembers (Option.isSome_of_isSome_bind h) x
      (by simpa [Catalog.refers_iff, parts, isRecordLike] using hx)

/-- One step of expansion answers when a record or tuple is not being expanded already and every
type it refers to is expanded, with the record or tuple on the path. -/
theorem encodeWith_succ_isSome (hnew : ty.isRecordLike = true → ty ∉ path)
    (hchild : ∀ x, Catalog.Refers c ty x → ∀ e l d,
      (encodeWith c fuel (if ty.isRecordLike then ty :: path else path) e x l d).isSome) :
    (encodeWith c (fuel + 1) path expr ty level depth).isSome := by
  have hpart : ∀ x ∈ ty.parts, ty.isRecordLike = false → ∀ e l d,
      (encodeWith c fuel path e x l d).isSome := by
    intro x hx hr e l d
    simpa [hr] using hchild x (Catalog.refers_iff.2 (.inr ⟨hr, hx⟩)) e l d
  have hmembers : ∀ {e : String} {l d : Nat} {ms : List ResolvedType},
      (∀ m ∈ ms, ∀ e l d, (encodeWith c fuel path e m l d).isSome) →
      (((List.range ms.length).zip ms).foldlM (fun acc (p : Nat × ResolvedType) =>
        (acc ++ ·) <$> encodeWith c fuel path (e ++ ".var" ++ toString p.1) p.2 l d) "").isSome :=
    fun h => foldlM_concat_isSome (fun _ _ => rfl) fun p hp => h p.2 (List.of_mem_zip hp).2 _ _ _
  cases ty with
  | primitive p | enum n => simp [encodeWith]
  | record n | tuple n ms =>
    simp only [encodeWith]
    split
    · rename_i hc
      exact absurd (List.contains_iff_mem.1 hc) (hnew rfl)
    · cases hfs : c.fieldsOf? _ with
      | none => rfl
      | some fs =>
        exact foldlM_concat_isSome (fun _ _ => rfl) fun f hf => hchild f.type (.field hfs hf) _ _ _
  | multi n ms =>
    simp only [encodeWith]
    exact hmembers fun m hm => hpart m (by simpa [parts] using hm) rfl
  | list i | variadic i =>
    simp only [encodeWith]
    obtain ⟨body, hbody⟩ := Option.isSome_iff_exists.1 (hpart i (by simp [parts]) rfl _ _ _)
    rw [hbody]
    rfl
  | multiVariadic n ms =>
    simp only [encodeWith]
    obtain ⟨body, hbody⟩ := Option.isSome_iff_exists.1
      (hmembers fun m hm => hpart m (by simpa [parts] using hm) rfl)
    rw [hbody]
    rfl

/-! ## An answer rules out cycles -/

/-- An expansion that answers meets no record or tuple of its path again, and no record or tuple
it reaches lies on a cycle. -/
theorem encodeWith_acyclic :
    ∀ {fuel : Nat} {path : List ResolvedType} {expr : String} {ty : ResolvedType}
      {level depth : Nat}, (encodeWith c fuel path expr ty level depth).isSome →
      ∀ u, ReflTransGen (Catalog.Refers c) ty u → u.isRecordLike = true →
        u ∉ path ∧ ¬ TransGen (Catalog.Refers c) u u
  | 0, _, _, _, _, _, h => by simp [encodeWith] at h
  | fuel + 1, path, expr, ty, level, depth, h => by
    obtain ⟨hnew, hchild⟩ := encodeWith_succ_inv h
    have below : ∀ x, Catalog.Refers c ty x → ∀ u, ReflTransGen (Catalog.Refers c) x u →
        u.isRecordLike = true →
          u ∉ (if ty.isRecordLike then ty :: path else path) ∧ ¬ TransGen (Catalog.Refers c) u u := by
      intro x hx
      obtain ⟨e, l, d, hsome⟩ := hchild x hx
      exact encodeWith_acyclic hsome
    intro u hu hrec
    rcases ReflTransGen.cases_head hu with rfl | ⟨x, hx, hxu⟩
    · refine ⟨hnew hrec, fun hcyc => ?_⟩
      obtain ⟨x, hx, hback⟩ := TransGen.head'_iff.1 hcyc
      have hnot := (below x hx _ hback hrec).1
      rw [if_pos hrec] at hnot
      exact hnot List.mem_cons_self
    · obtain ⟨hnot, hacyc⟩ := below x hx u hxu hrec
      refine ⟨fun hmem => hnot ?_, hacyc⟩
      split
      · exact List.mem_cons_of_mem _ hmem
      · exact hmem

/-! ## What an answer looks like -/

/-- Every answer is a sequence of pushes and loops, each loop closed at its own indentation and
its variable named after the number of loops around it. -/
theorem encodeWith_emitted :
    ∀ {fuel : Nat} {path : List ResolvedType} {expr : String} {ty : ResolvedType}
      {level depth : Nat} {s : String}, encodeWith c fuel path expr ty level depth = some s →
      Emitted level depth s
  | 0, _, _, _, _, _, _, h => by simp [encodeWith] at h
  | fuel + 1, path, expr, ty, level, depth, s, h => by
    have hmembers : ∀ {p' : List ResolvedType} {e : String} {l d : Nat} {ms : List ResolvedType}
        {s' : String}, ((List.range ms.length).zip ms).foldlM (fun acc (q : Nat × ResolvedType) =>
          (acc ++ ·) <$> encodeWith c fuel p' (e ++ ".var" ++ toString q.1) q.2 l d) "" = some s' →
        Emitted l d s' :=
      fun h => foldlM_concat_closed (fun _ _ => rfl) (fun _ _ => Emitted.append) h .nil
        fun _ _ _ ht => encodeWith_emitted ht
    cases ty with
    | primitive p | enum n =>
      simp only [encodeWith, Option.some.injEq] at h
      subst h
      exact Emitted.single_push _
    | record n | tuple n ms =>
      simp only [encodeWith] at h
      split at h
      · cases h
      · exact foldlM_concat_closed (fun _ _ => rfl) (fun _ _ => Emitted.append) h .nil
          fun _ _ _ ht => encodeWith_emitted ht
    | multi n ms =>
      simp only [encodeWith] at h
      exact hmembers h
    | list i | variadic i =>
      simp only [encodeWith] at h
      obtain ⟨body, hbody, hs⟩ := Option.bind_eq_some_iff.1 h
      cases hs
      exact Emitted.single_loop (encodeWith_emitted hbody)
    | multiVariadic n ms =>
      simp only [encodeWith] at h
      obtain ⟨body, hbody, hs⟩ := Option.bind_eq_some_iff.1 h
      cases hs
      exact Emitted.single_loop (hmembers hbody)

/-! ## Without cycles the fuel is enough -/

/-- What lets the expansion of `ty` below `path` answer: nothing reached lies on a cycle, and
the path holds distinct records and tuples that refer to `ty`. -/
structure Expandable (c : Catalog) (path : List ResolvedType) (ty : ResolvedType) : Prop where
  acyclic : ∀ u, ReflTransGen (Catalog.Refers c) ty u → u.isRecordLike = true →
    ¬ TransGen (Catalog.Refers c) u u
  path_refers : ∀ p ∈ path, p.isRecordLike = true ∧ TransGen (Catalog.Refers c) p ty
  keys_nodup : (path.filterMap entryKey).Nodup
  keys_mem : ∀ k ∈ path.filterMap entryKey, k ∈ c.entryKeys

/-- The fuel the expansion of `ty` below `path` needs at most: the depth of `ty`, then a catalog
depth and one step for each catalog entry not on the path yet. -/
def expansionBudget (c : Catalog) (path : List ResolvedType) (ty : ResolvedType) : Nat :=
  ty.depth + (c.entryCount - (path.filterMap entryKey).length) * (c.depth + 1)

namespace Expandable

variable {x : ResolvedType}

theorem not_mem (h : Expandable c path ty) (hty : ty.isRecordLike = true) : ty ∉ path :=
  fun hmem => h.acyclic ty .refl hty (h.path_refers ty hmem).2

/-- Following a reference from anything but a record or a tuple keeps the path and reaches a
shallower type. -/
theorem refer_part (h : Expandable c path ty) (hx : Catalog.Refers c ty x)
    (hty : ty.isRecordLike = false) :
    Expandable c path x ∧ expansionBudget c path x < expansionBudget c path ty := by
  refine ⟨⟨fun u hu => h.acyclic u (.head hx hu), fun p hp => ?_, h.keys_nodup, h.keys_mem⟩, ?_⟩
  · exact ⟨(h.path_refers p hp).1, (h.path_refers p hp).2.tail hx⟩
  · have := hx.depth_lt hty
    simp only [expansionBudget]
    omega

/-- Following a reference from a record or tuple puts it on the path: its catalog entry is not
there yet, or it would lie on a cycle, and the field reached is no deeper than the catalog. -/
theorem refer_entry (h : Expandable c path ty) (hx : Catalog.Refers c ty x)
    (hty : ty.isRecordLike = true) :
    Expandable c (ty :: path) x ∧ expansionBudget c (ty :: path) x < expansionBudget c path ty := by
  obtain ⟨fs, f, hfs, hf, rfl⟩ := hx.of_recordLike hty
  obtain ⟨k, hk, hkmem⟩ := Catalog.entryKey_mem_of_fieldsOf? hfs
  have hkeys : (ty :: path).filterMap entryKey = k :: path.filterMap entryKey :=
    List.filterMap_cons_some hk
  have hfresh : k ∉ path.filterMap entryKey := by
    intro hmem
    obtain ⟨p, hp, hpk⟩ := List.mem_filterMap.1 hmem
    obtain ⟨hprec, hpty⟩ := h.path_refers p hp
    exact h.acyclic ty .refl hty
      (Catalog.cycle_of_same_entry hpty (hpk.trans hk.symm) hprec)
  have hnodup : (k :: path.filterMap entryKey).Nodup := List.nodup_cons.2 ⟨hfresh, h.keys_nodup⟩
  have hsub : ∀ k' ∈ k :: path.filterMap entryKey, k' ∈ c.entryKeys := by
    intro k' hk'
    rcases List.mem_cons.1 hk' with rfl | hk'
    · exact hkmem
    · exact h.keys_mem k' hk'
  refine ⟨⟨fun u hu => h.acyclic u (.head hx hu), fun p hp => ?_, hkeys ▸ hnodup,
    hkeys ▸ hsub⟩, ?_⟩
  · rcases List.mem_cons.1 hp with rfl | hp
    · exact ⟨hty, .single hx⟩
    · exact ⟨(h.path_refers p hp).1, (h.path_refers p hp).2.tail hx⟩
  · have hroom : (path.filterMap entryKey).length + 1 ≤ c.entryCount := by
      have := hnodup.length_le_of_subset hsub
      rwa [Catalog.length_entryKeys, List.length_cons] at this
    have hfield := Catalog.depth_le_of_fieldsOf? hfs hf
    have hpos := ty.depth_pos
    have hsplit : (c.entryCount - (path.filterMap entryKey).length) * (c.depth + 1) =
        (c.entryCount - ((path.filterMap entryKey).length + 1)) * (c.depth + 1) + (c.depth + 1) := by
      rw [show c.entryCount - (path.filterMap entryKey).length =
        c.entryCount - ((path.filterMap entryKey).length + 1) + 1 by omega, Nat.succ_mul]
    simp only [expansionBudget, hkeys, List.length_cons]
    omega

/-- Following any reference keeps the expansion possible and spends some of its budget. -/
theorem refer (h : Expandable c path ty) (hx : Catalog.Refers c ty x) :
    Expandable c (if ty.isRecordLike then ty :: path else path) x ∧
      expansionBudget c (if ty.isRecordLike then ty :: path else path) x <
        expansionBudget c path ty := by
  cases hty : ty.isRecordLike
  · exact h.refer_part hx hty
  · exact h.refer_entry hx hty

end Expandable

/-- An expansion that its budget fits in answers. The induction is on the fuel, which every step
of the expansion spends, and the budget goes down with it. -/
theorem encodeWith_isSome :
    ∀ {fuel : Nat} {path : List ResolvedType} {expr : String} {ty : ResolvedType}
      {level depth : Nat}, Expandable c path ty → expansionBudget c path ty < fuel →
      (encodeWith c fuel path expr ty level depth).isSome
  | 0, _, _, _, _, _, _, hfuel => absurd hfuel (Nat.not_lt_zero _)
  | fuel + 1, _, _, _, _, _, h, hfuel =>
    encodeWith_succ_isSome h.not_mem fun _ hx _ _ _ =>
      encodeWith_isSome (h.refer hx).1 (by have := (h.refer hx).2; omega)

/-- The encoder answers when no record or tuple reachable from the type lies on a cycle. -/
theorem encode_isSome (expr : String) (level : Nat)
    (h : ∀ u, ReflTransGen (Catalog.Refers c) ty u → u.isRecordLike = true →
      ¬ TransGen (Catalog.Refers c) u u) :
    (encode c expr ty level).isSome := by
  refine encodeWith_isSome ⟨h, by simp, by simp, by simp⟩ ?_
  have hfuel : (c.entryCount + 1) * (ty.depth + c.depth + 1) =
      c.entryCount * ty.depth + c.entryCount * (c.depth + 1) + (ty.depth + c.depth + 1) := by
    ring
  simp only [expansionBudget, List.filterMap_nil, List.length_nil, Nat.sub_zero, encodeFuel, hfuel]
  omega

end Binding

/-! ## The encoder -/

/-- The argument encoder answers exactly when no record or composite reachable from the type is
on a cycle, and answers well-nested pushes and loops. -/
theorem encoder_terminates_exactly_on_acyclic (c : Catalog) (expr : String) (ty : ResolvedType)
    (level : Nat) :
    ((Binding.encode c expr ty level).isSome = true ↔
      ∀ u, ReflTransGen (Catalog.Refers c) ty u →
        ((∃ n, u = .record n) ∨ u.composite?.isSome = true) → ¬ TransGen (Catalog.Refers c) u u) ∧
    ∀ s, Binding.encode c expr ty level = some s → Binding.Emitted level 0 s := by
  refine ⟨⟨fun h u hu _ hcyc => ?_, fun h => ?_⟩, fun s hs => Binding.encodeWith_emitted hs⟩
  · obtain ⟨r, hr, hur, hrr⟩ := Catalog.exists_recordLike_on_cycle hcyc
    exact (Binding.encodeWith_acyclic h r (hu.trans hur) hr).2 hrr
  · exact Binding.encode_isSome expr level fun u hu hrec => h u hu (named_of_isRecordLike hrec)

example : (Binding.encode ⟨[("Node", [⟨"next", .list (.record "Node")⟩])], [], []⟩ "value"
    (.record "Node") 2).isSome = false := by decide

end ContractAbi
