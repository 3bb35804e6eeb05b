import ContractAbi.Proofs.TypeGrammar
import ContractAbi.Proofs.ResolvedTypes
import ContractAbi.Proofs.NestedRoundTrip

/-!
# Printed types read back

A resolved type prints as a type expression (`display`). Resolving the printed text again, in
the context that resolution left, answers the same type and leaves the context as it was: the
text reads back through the grammar of `Proofs.TypeGrammar`, every primitive in it is noted
already, every named type is declared, and every composite is found registered under its name
with its members (`NodeStable`).

One shape does not read back. A `variadic` whose item is a `multi` prints as
`variadic<multi<...>>`, which is the text of a repeating group. Resolution reaches that shape
through an optional wrapper or a `multi` of one member (`variadic<Option<multi<A,B>>>`,
`variadic<multi<multi<A,B>>>`), and its text resolves to the repeating group of the same
composite instead.

Main statements: `display_reresolves` and `display_does_not_always_reresolve`.
-/

namespace ContractAbi

open ResolvedType TypeExpr Text

/-! ## Printed text -/

/-- A name resolution accepts for a declared type: a type name that is no keyword. -/
structure TypeName (n : String) : Prop where
  identifier : Identifier n.toList
  not_keyword : Primitive.ofKeyword? n = none

/-- Printed text that stands on its own: not empty, with nothing to trim, balanced, and with no
comma outside its brackets. -/
structure Standalone (x : List Char) : Prop where
  ne_nil : x ≠ []
  trimmed : trimChars x = x
  segment : Segment x

theorem dropWhile_eq_self_of_head {p : Char → Bool} {l : List Char}
    (h : ∀ c ∈ l.head?, p c = false) : l.dropWhile p = l := by
  cases l with
  | nil => rfl
  | cons c cs => exact List.dropWhile_cons_of_neg (by simpa using h c rfl)

/-- A text that neither starts nor ends with a blank is its own trimming. -/
theorem trimChars_eq_self {x : List Char} (hhead : ∀ c ∈ x.head?, isBlank c = false)
    (hlast : ∀ c ∈ x.getLast?, isBlank c = false) : trimChars x = x := by
  have hrev : ∀ c ∈ x.reverse.head?, isBlank c = false := by
    simpa [List.head?_reverse] using hlast
  unfold trimChars
  rw [dropWhile_eq_self_of_head hhead, dropWhile_eq_self_of_head hrev, List.reverse_reverse]

theorem segment_of_plain {x : List Char} (hopen : '<' ∉ x) (hclose : '>' ∉ x)
    (hcomma : ',' ∉ x) : Segment x :=
  ⟨balanced_of_no_brackets hopen hclose, fun p q hpq => absurd (by rw [hpq]; simp) hcomma⟩

/-- A head with no bracket and no comma followed by a balanced text in brackets is one member:
every comma in it stands inside the brackets. -/
theorem segment_wrap {H inner : List Char} (hopen : '<' ∉ H) (hclose : '>' ∉ H)
    (hcomma : ',' ∉ H) (hb : Balanced inner) : Segment (H ++ '<' :: (inner ++ ['>'])) := by
  refine ⟨(balanced_of_no_brackets hopen hclose).append hb.wrap, fun p q hpq => ?_⟩
  have hpre : p ++ [','] <+: H ++ '<' :: (inner ++ ['>']) := ⟨q, by rw [hpq]; simp⟩
  rcases prefix_append_cases hpre with hH | ⟨r, hr, hr'⟩
  · exact absurd (hH.subset (by simp)) hcomma
  rcases List.prefix_cons_iff.1 hr with rfl | ⟨t, rfl, ht⟩
  · exact absurd (by rw [← List.append_nil H, ← hr']; simp) hcomma
  rcases List.eq_nil_or_concat' t with rfl | ⟨t', b, rfl⟩
  · have := congrArg List.getLast? hr'
    simp at this
  have hsplit : p ++ [','] = (H ++ '<' :: t') ++ [b] := by rw [hr']; simp
  obtain ⟨rfl, hb'⟩ := List.append_inj' hsplit rfl
  simp only [List.cons.injEq, and_true] at hb'
  subst hb'
  have ht' : t' <+: inner := by
    rcases prefix_append_cases ht with ht | ⟨r', hr'', heq⟩
    · exact (List.prefix_append t' [',']).trans ht
    · rcases List.prefix_cons_iff.1 hr'' with rfl | ⟨r'', rfl, hnil⟩
      · exact ⟨[','], by simpa using heq⟩
      · rw [List.prefix_nil.1 hnil] at heq
        have := congrArg List.getLast? heq
        simp at this
  have hcount := hb.prefixes t' ht'
  simp only [List.count_append, List.count_eq_zero.2 hopen, List.count_eq_zero.2 hclose,
    List.count_cons_self, List.count_cons_of_ne (by decide : '<' ≠ '>')]
  omega

/-- A letter, digit or underscore is no blank and no comma. -/
theorem not_blank_of_word {d : Char} (h : d.isAlphanum = true ∨ d = '_') :
    isBlank d = false ∧ d ≠ ',' := by
  rcases h with h | rfl
  · have hrange : 48 ≤ d.toNat ∧ d.toNat ≤ 122 := by
      simp only [Char.isAlphanum, Char.isAlpha, Char.isUpper, Char.isLower, Char.isDigit,
        Bool.or_eq_true, Bool.and_eq_true, decide_eq_true_eq, UInt32.le_iff_toNat_le] at h
      simp only [Char.toNat]
      grind
    refine ⟨by simp only [isBlank]; grind, ?_⟩
    rintro rfl
    revert h
    decide
  · decide

theorem TypeName.standalone {n : String} (h : TypeName n) : Standalone n.toList := by
  obtain ⟨c, cs, hx, hc, hcs⟩ := h.identifier
  have hword : ∀ d ∈ n.toList, isBlank d = false ∧ d ≠ ',' := by
    rw [hx]
    rintro d (_ | ⟨_, hd⟩)
    · refine not_blank_of_word (hc.imp (fun ha => ?_) id)
      simp [Char.isAlphanum, ha]
    · exact not_blank_of_word (hcs d hd)
  refine ⟨by simp [hx], trimChars_eq_self (fun d hd => (hword d (List.mem_of_mem_head? hd)).1)
    (fun d hd => (hword d (List.mem_of_mem_getLast? hd)).1), segment_of_plain
    h.identifier.no_brackets.1 h.identifier.no_brackets.2 fun hd => (hword ',' hd).2 rfl⟩

theorem standalone_keyword (p : Primitive) : Standalone p.keyword.toList := by
  cases p <;> exact ⟨by decide, by decide, segment_of_plain (by decide) (by decide) (by decide)⟩

theorem no_brackets_keyword (p : Primitive) : '<' ∉ p.keyword.toList ∧ '>' ∉ p.keyword.toList := by
  cases p <;> decide

/-- A word that heads a printed generic form: not empty, trimmed, with no bracket and no comma,
and no optional wrapper. -/
structure Head (H : List Char) : Prop where
  ne_nil : H ≠ []
  trimmed : trimChars H = H
  first : ∀ c ∈ H.head?, isBlank c = false
  no_open : '<' ∉ H
  no_close : '>' ∉ H
  no_comma : ',' ∉ H
  not_optional : H ∉ optionalWrappers

namespace Head

theorem list : Head "List".toList :=
  ⟨by decide, by decide, fun c hc => by cases hc; decide, by decide, by decide, by decide,
    by decide⟩

theorem variadic : Head "variadic".toList :=
  ⟨by decide, by decide, fun c hc => by cases hc; decide, by decide, by decide, by decide,
    by decide⟩

theorem multi : Head "multi".toList :=
  ⟨by decide, by decide, fun c hc => by cases hc; decide, by decide, by decide, by decide,
    by decide⟩

theorem tuple : Head "tuple".toList :=
  ⟨by decide, by decide, fun c hc => by cases hc; decide, by decide, by decide, by decide,
    by decide⟩

variable {H inner : List Char}

theorem genericForm (hH : Head H) (hb : Balanced inner) :
    GenericForm (H ++ '<' :: (inner ++ ['>'])) H inner :=
  ⟨H, rfl, hH.no_open, hH.trimmed.symm, hH.ne_nil, hb⟩

theorem standalone (hH : Head H) (hb : Balanced inner) :
    Standalone (H ++ '<' :: (inner ++ ['>'])) := by
  refine ⟨by simp, trimChars_eq_self (fun c hc => ?_) (fun c hc => ?_),
    segment_wrap hH.no_open hH.no_close hH.no_comma hb⟩
  · obtain ⟨d, ds, rfl⟩ := List.exists_cons_of_ne_nil hH.ne_nil
    exact hH.first c (by simpa using hc)
  · have hlast : (H ++ '<' :: (inner ++ ['>'])).getLast? = some '>' := by
      rw [show H ++ '<' :: (inner ++ ['>']) = (H ++ '<' :: inner) ++ ['>'] by simp,
        List.getLast?_concat]
    rw [hlast] at hc
    cases hc
    decide

/-- The only generic form of a printed generic text is the printed one, so it is no optional
wrapper. -/
theorem not_wrapper (hH : Head H) (hb : Balanced inner) :
    ∀ w i, GenericForm (H ++ '<' :: (inner ++ ['>'])) w i → w ∉ optionalWrappers := by
  intro w i hf
  rw [(hf.unique (hH.genericForm hb)).1]
  exact hH.not_optional

end Head

@[simp] theorem toList_display_list (i : ResolvedType) :
    (display (.list i)).toList = "List".toList ++ '<' :: ((display i).toList ++ ['>']) := by
  rw [show display (.list i) = "List<" ++ display i ++ ">" from rfl, String.toList_append,
    String.toList_append]
  simp

@[simp] theorem toList_display_variadic (i : ResolvedType) :
    (display (.variadic i)).toList = "variadic".toList ++ '<' :: ((display i).toList ++ ['>']) := by
  rw [show display (.variadic i) = "variadic<" ++ display i ++ ">" from rfl, String.toList_append,
    String.toList_append]
  simp

@[simp] theorem toList_display_multiVariadic (n : String) (ms : List ResolvedType) :
    (display (.multiVariadic n ms)).toList = "variadic".toList ++
      '<' :: (("multi".toList ++ '<' :: ((displayList ms).toList ++ ['>'])) ++ ['>']) := by
  rw [show display (.multiVariadic n ms) = "variadic<multi<" ++ displayList ms ++ ">>" from rfl,
    String.toList_append, String.toList_append]
  simp

@[simp] theorem toList_display_multi (n : String) (ms : List ResolvedType) :
    (display (.multi n ms)).toList = "multi".toList ++ '<' :: ((displayList ms).toList ++ ['>']) := by
  rw [show display (.multi n ms) = "multi<" ++ displayList ms ++ ">" from rfl, String.toList_append,
    String.toList_append]
  simp

@[simp] theorem toList_display_tuple (n : String) (ms : List ResolvedType) :
    (display (.tuple n ms)).toList = "tuple".toList ++ '<' :: ((displayList ms).toList ++ ['>']) := by
  rw [show display (.tuple n ms) = "tuple<" ++ displayList ms ++ ">" from rfl, String.toList_append,
    String.toList_append]
  simp

/-- Printed members are the members' texts joined by commas. -/
theorem toList_displayList :
    ∀ ms : List ResolvedType, (displayList ms).toList = [','].intercalate (ms.map fun m => (display m).toList)
  | [] => by simp [displayList]
  | [m] => by simp [displayList]
  | m :: m' :: ms => by
    rw [displayList.eq_3 _ _ (List.cons_ne_nil _ _), String.toList_append, String.toList_append,
      toList_displayList (m' :: ms)]
    simp [List.intercalate_cons_cons]

/-! ## Printable types -/

namespace ResolvedType

theorem AllNodes.root {P : ResolvedType → Prop} {t : ResolvedType} (h : AllNodes P t) : P t :=
  h t .refl

theorem AllNodes.part {P : ResolvedType → Prop} {t m : ResolvedType} (h : AllNodes P t)
    (hm : m ∈ t.parts) : AllNodes P m :=
  (allNodes_iff.1 h).2 m hm

/-- What a node needs to print as text that reads back: a declared type's name is a type name,
and a composite has members. -/
structure Printable (u : ResolvedType) : Prop where
  record : ∀ n, u = .record n → TypeName n
  enum : ∀ n, u = .enum n → TypeName n
  members : ∀ n ms, u.composite? = some (n, ms) → ms ≠ []

end ResolvedType

-- printing follows the two mutual definitions, a type and its members
mutual

/-- A printable type prints as text that stands on its own. -/
theorem standalone_display :
    ∀ t : ResolvedType, AllNodes Printable t → Standalone (display t).toList
  | .primitive p, _ => standalone_keyword p
  | .record n, h => (h.root.record n rfl).standalone
  | .enum n, h => (h.root.enum n rfl).standalone
  | .list i, h => by
    rw [toList_display_list]
    exact Head.list.standalone (standalone_display i (h.part (by simp [parts]))).segment.balanced
  | .variadic i, h => by
    rw [toList_display_variadic]
    exact Head.variadic.standalone
      (standalone_display i (h.part (by simp [parts]))).segment.balanced
  | .multiVariadic n ms, h => by
    rw [toList_display_multiVariadic]
    exact Head.variadic.standalone (Head.multi.standalone
      (balanced_displayList ms fun m hm => h.part (by simpa [parts] using hm))).segment.balanced
  | .multi n ms, h => by
    rw [toList_display_multi]
    exact Head.multi.standalone (balanced_displayList ms fun m hm => h.part (by simpa [parts] using hm))
  | .tuple n ms, h => by
    rw [toList_display_tuple]
    exact Head.tuple.standalone (balanced_displayList ms fun m hm => h.part (by simpa [parts] using hm))

/-- Printable members print as a balanced text. -/
theorem balanced_displayList :
    ∀ ms : List ResolvedType, (∀ m ∈ ms, AllNodes Printable m) → Balanced (displayList ms).toList
  | [], _ => balanced_of_no_brackets (by simp [displayList]) (by simp [displayList])
  | [m], h => by
    simpa [displayList] using (standalone_display m (h m List.mem_cons_self)).segment.balanced
  | m :: m' :: ms, h => by
    rw [displayList.eq_3 _ _ (List.cons_ne_nil _ _), String.toList_append, String.toList_append]
    exact ((standalone_display m (h m List.mem_cons_self)).segment.balanced.append
      (balanced_of_no_brackets (by simp) (by simp))).append
      (balanced_displayList (m' :: ms) fun x hx => h x (List.mem_cons_of_mem m hx))

end

/-- The item of a printed simple variadic is no `multi<...>` when the item is none: it has no
bracket, or it is a generic form with another head. -/
theorem display_item {i : ResolvedType} (hp : AllNodes Printable i) (hi : ∀ n ms, i ≠ .multi n ms) :
    ('<' ∉ (display i).toList ∧ '>' ∉ (display i).toList) ∨
      ∃ h j, GenericForm (display i).toList h j ∧ h ≠ "multi".toList := by
  have hmembers : ∀ n ms, i.composite? = some (n, ms) → Balanced (displayList ms).toList :=
    fun n ms hc => balanced_displayList ms fun m hm => hp.part (by rwa [parts_of_composite hc])
  cases i with
  | primitive p => exact .inl (no_brackets_keyword p)
  | record n => exact .inl (hp.root.record n rfl).identifier.no_brackets
  | enum n => exact .inl (hp.root.enum n rfl).identifier.no_brackets
  | list i =>
    rw [toList_display_list]
    exact .inr ⟨_, _, Head.list.genericForm
      (standalone_display i (hp.part (by simp [parts]))).segment.balanced, by decide⟩
  | variadic i =>
    rw [toList_display_variadic]
    exact .inr ⟨_, _, Head.variadic.genericForm
      (standalone_display i (hp.part (by simp [parts]))).segment.balanced, by decide⟩
  | multiVariadic n ms =>
    rw [toList_display_multiVariadic]
    exact .inr ⟨_, _, Head.variadic.genericForm
      (Head.multi.standalone (hmembers n ms rfl)).segment.balanced, by decide⟩
  | multi n ms => exact absurd rfl (hi n ms)
  | tuple n ms =>
    rw [toList_display_tuple]
    exact .inr ⟨_, _, Head.tuple.genericForm (hmembers n ms rfl), by decide⟩

/-! ## Reading printed text -/

/-- A text that stands on its own and is no optional wrapper reads as the grammar reads it. -/
theorem parse_of_standalone {s : String} {f : TypeForm} (hs : Standalone s.toList)
    (hw : ∀ w i, GenericForm s.toList w i → w ∉ optionalWrappers) (hf : ReadsAs s.toList f) :
    parse s = .ok f := by
  have hpeel : Peeled s.toList s.toList := by
    have := Peeled.bare (s := s.toList) (by rwa [hs.trimmed])
    rwa [hs.trimmed] at this
  exact parse_eq_ok_iff_peeled.2 ⟨_, hpeel, hs.ne_nil, hf⟩

theorem not_wrapper_of_no_open {x : List Char} (hx : '<' ∉ x) :
    ∀ w i, GenericForm x w i → w ∉ optionalWrappers :=
  fun _ _ hf => absurd hf.open_mem hx

theorem parse_generic {s : String} {H inner : List Char} {f : TypeForm} (hH : Head H)
    (hb : Balanced inner) (hs : s.toList = H ++ '<' :: (inner ++ ['>']))
    (hf : ReadsAs (H ++ '<' :: (inner ++ ['>'])) f) : parse s = .ok f := by
  rw [← hs] at hf
  exact parse_of_standalone (hs ▸ hH.standalone hb) (hs ▸ hH.not_wrapper hb) hf

theorem parse_display_primitive (p : Primitive) :
    parse (display (.primitive p)) = .ok (.primitive p) :=
  parse_of_standalone (standalone_keyword p) (not_wrapper_of_no_open (no_brackets_keyword p).1)
    (.primitive (by rw [String.ofList_toList]; exact Primitive.ofKeyword?_keyword p))

theorem TypeName.parse_eq {n : String} (h : TypeName n) : parse n = .ok (.named n) := by
  have := parse_of_standalone h.standalone (not_wrapper_of_no_open h.identifier.no_brackets.1)
    (.named (by rw [String.ofList_toList]; exact h.not_keyword) h.identifier)
  rwa [String.ofList_toList] at this

theorem parse_display_list {i : ResolvedType} (hi : Balanced (display i).toList) :
    parse (display (.list i)) = .ok (.list (display i)) := by
  have := parse_generic Head.list hi (toList_display_list i) (.list (Head.list.genericForm hi))
  rwa [String.ofList_toList] at this

theorem parse_display_variadic {i : ResolvedType} (hi : Standalone (display i).toList)
    (hitem : ('<' ∉ (display i).toList ∧ '>' ∉ (display i).toList) ∨
      ∃ h j, GenericForm (display i).toList h j ∧ h ≠ "multi".toList) :
    parse (display (.variadic i)) = .ok (.variadic (display i)) := by
  have := parse_generic Head.variadic hi.segment.balanced (toList_display_variadic i)
    (.variadic (Head.variadic.genericForm hi.segment.balanced) (by rwa [hi.trimmed]))
  rwa [String.ofList_toList] at this

theorem parse_display_multiVariadic {n : String} {ms : List ResolvedType}
    (hb : Balanced (displayList ms).toList) :
    parse (display (.multiVariadic n ms)) = .ok (.multiVariadic (displayList ms)) := by
  have hinner := Head.multi.standalone hb
  have := parse_generic Head.variadic hinner.segment.balanced (toList_display_multiVariadic n ms)
    (.multiVariadic (Head.variadic.genericForm hinner.segment.balanced)
      (by rw [hinner.trimmed]; exact Head.multi.genericForm hb))
  rwa [String.ofList_toList] at this

theorem parse_display_multi {n : String} {ms : List ResolvedType}
    (hb : Balanced (displayList ms).toList) :
    parse (display (.multi n ms)) = .ok (.multi (displayList ms)) := by
  have := parse_generic Head.multi hb (toList_display_multi n ms) (.multi (Head.multi.genericForm hb))
  rwa [String.ofList_toList] at this

theorem parse_display_tuple {n : String} {ms : List ResolvedType}
    (hb : Balanced (displayList ms).toList) :
    parse (display (.tuple n ms)) = .ok (.tuple (displayList ms)) := by
  have := parse_generic Head.tuple hb (toList_display_tuple n ms) (.tuple (Head.tuple.genericForm hb))
  rwa [String.ofList_toList] at this

/-- Printed members cut back into the members' texts. -/
theorem splitMembers_displayList {ms : List ResolvedType} (hne : ms ≠ [])
    (hp : ∀ m ∈ ms, AllNodes Printable m) : splitMembers (displayList ms) = .ok (ms.map display) := by
  have hs : ∀ m ∈ ms, Standalone (display m).toList := fun m hm => standalone_display m (hp m hm)
  refine splitMembers_eq_ok_iff.2 ⟨ms.map fun m => (display m).toList,
    ⟨by simpa using hne, toList_displayList ms, ?_⟩, ?_, ?_⟩
  · simp only [List.mem_map]
    rintro _ ⟨m, hm, rfl⟩
    exact (hs m hm).segment
  · simp only [List.mem_map]
    rintro _ ⟨m, hm, rfl⟩
    rw [(hs m hm).trimmed]
    exact (hs m hm).ne_nil
  · rw [List.map_map]
    refine List.map_congr_left fun m hm => ?_
    simp [(hs m hm).trimmed]

mutual

/-- Printed text is long enough to resolve as deep as the type nests. -/
theorem depth_le_length_display : ∀ t : ResolvedType, t.depth ≤ (display t).length + 1
  | .primitive _ | .record _ | .enum _ => by simp [depth]
  | .list i | .variadic i => by
    have := depth_le_length_display i
    rw [← String.length_toList]
    simp [depth, String.length_toList]
    omega
  | .multiVariadic _ ms | .multi _ ms | .tuple _ ms => by
    have := depthList_le_length_displayList ms
    rw [← String.length_toList]
    simp [depth, String.length_toList]
    omega

theorem depthList_le_length_displayList :
    ∀ ms : List ResolvedType, depthList ms ≤ (displayList ms).length + 1
  | [] => by simp [depthList]
  | [m] => by
    have := depth_le_length_display m
    simp [depthList, displayList]
    omega
  | m :: m' :: ms => by
    have hm := depth_le_length_display m
    have hms := depthList_le_length_displayList (m' :: ms)
    rw [displayList.eq_3 _ _ (List.cons_ne_nil _ _), depthList]
    simp only [String.length_append]
    omega

end

/-! ## Composites registered first under their name -/

namespace Registry

variable {r r' : Registry} {n : String} {ms : List ResolvedType}

/-- `n` names the first entry whose fields are the members', so registering them answers `n`. -/
def FirstWith (r : Registry) (n : String) (ms : List ResolvedType) : Prop :=
  r.entries.find? (fun e => e.2 == compositeFields ms) = some (n, compositeFields ms)

theorem FirstWith.register_eq (h : r.FirstWith n ms) : r.register ms = (n, r) := by
  unfold FirstWith at h
  simp only [register, h]

theorem firstWith_register (r : Registry) (ms : List ResolvedType) :
    (r.register ms).2.FirstWith (r.register ms).1 ms := by
  unfold FirstWith
  cases hfind : r.entries.find? (fun e => e.2 == compositeFields ms) with
  | some e =>
    obtain ⟨n, fs⟩ := e
    have hfs : fs = compositeFields ms := by simpa using List.find?_some hfind
    simp only [register, hfind]
    rw [hfs]
  | none =>
    simp only [register, hfind]
    rw [List.find?_append, hfind]
    simp

/-- Registering other members appends after the entry found first, if at all. -/
theorem FirstWith.register (h : r.FirstWith n ms) (ms' : List ResolvedType) :
    (r.register ms').2.FirstWith n ms := by
  rcases register_cases r ms' with ⟨-, h'⟩ | ⟨-, h'⟩ <;> rw [h']
  · exact h
  · unfold FirstWith at h ⊢
    rw [List.find?_append, h]
    rfl

theorem FirstWith.reaches (h : r.FirstWith n ms) (hr : r.Reaches r') : r'.FirstWith n ms :=
  hr.preserves (P := fun r => r.FirstWith n ms) (fun _ ms' h => h.register ms') h

end Registry

/-! ## Primitives noted -/

namespace Context

variable {c c' : Context} {p : Primitive}

/-- A primitive is noted in a context when noting it again changes nothing: an alias is among the
aliases, and a big number is imported. -/
structure Noted (c : Context) (p : Primitive) : Prop where
  custom : p.isCustomAlias = true → p ∈ c.customTypes
  bigUint : p = .bigUint → c.usesBigUint = true
  bigInt : p = .bigInt → c.usesBigInt = true

theorem Noted.note_eq (h : c.Noted p) : c.note p = c := by
  obtain ⟨hc, hu, hi⟩ := h
  cases c
  cases p <;> simp_all [note, Primitive.isCustomAlias]

theorem noted_note (c : Context) (p : Primitive) : (c.note p).Noted p := by
  refine ⟨fun ha => ?_, fun h => by simp [h], fun h => by simp [h]⟩
  rw [note_customTypes]
  split
  · exact List.mem_append_right _ (List.mem_singleton_self _)
  · rename_i hold
    simp only [ha, Bool.true_and, Bool.not_eq_true', Bool.not_eq_false] at hold
    exact List.contains_iff_mem.1 hold

theorem Noted.mono (h : c.Noted p) (hc : c.Extends c') : c'.Noted p := by
  refine ⟨fun ha => hc.customTypes.subset (h.custom ha), fun hp => ?_, fun hp => ?_⟩
  · have := hc.imports "BigUint" ((mem_imports c _).2 (.inr ⟨rfl, h.bigUint hp⟩))
    simpa [mem_imports] using this
  · have := hc.imports "BigInt" ((mem_imports c _).2 (.inl ⟨rfl, h.bigInt hp⟩))
    simpa [mem_imports] using this

end Context

/-! ## Nodes that read back -/

/-- A name read from a type expression is a type name. -/
theorem typeName_of_parse {s n : String} (h : parse s = .ok (.named n)) : TypeName n := by
  obtain ⟨-, hf⟩ := parse_eq_ok_iff.1 h
  generalize stripOptionalChars s.toList = x at hf
  cases hf with
  | named hk hid => exact ⟨by rwa [String.toList_ofList], hk⟩

/-- What resolving a node's printed text again needs: it prints readably, and its primitives,
named types and composites are known to the context. -/
structure NodeStable (doc : AbiDocument) (c : Context) (u : ResolvedType) : Prop
    extends Printable u where
  noted : ∀ p, u = .primitive p → c.Noted p
  record_declared : ∀ n, u = .record n → ∃ ds fs, doc.types.get? n = some (.struct ds fs)
  enum_declared : ∀ n, u = .enum n → ∃ ds vs, doc.types.get? n = some (.enum ds vs)
  wide : ∀ n ms, u = .multi n ms ∨ u = .multiVariadic n ms → 2 ≤ ms.length
  firstWith : ∀ n ms, u.composite? = some (n, ms) → c.composites.FirstWith n ms

namespace NodeStable

variable {doc : AbiDocument} {c c' : Context} {u : ResolvedType}

/-- What a node needs of the context survives the context growing. -/
theorem mono (h : NodeStable doc c u) (hc : c.Extends c') : NodeStable doc c' u :=
  { h with
    noted := fun p hp => (h.noted p hp).mono hc
    firstWith := fun n ms hu => (h.firstWith n ms hu).reaches hc.composites }

/-- A list or a simple variadic needs nothing of its own. -/
theorem wrapper {i : ResolvedType} (hu : u = .list i ∨ u = .variadic i) : NodeStable doc c u where
  record n h := by rcases hu with rfl | rfl <;> cases h
  enum n h := by rcases hu with rfl | rfl <;> cases h
  members n ms h := by rcases hu with rfl | rfl <;> simp [composite?] at h
  noted p h := by rcases hu with rfl | rfl <;> cases h
  record_declared n h := by rcases hu with rfl | rfl <;> cases h
  enum_declared n h := by rcases hu with rfl | rfl <;> cases h
  wide n ms h := by rcases hu with rfl | rfl <;> rcases h with h | h <;> cases h
  firstWith n ms h := by rcases hu with rfl | rfl <;> simp [composite?] at h

theorem primitive (p : Primitive) : NodeStable doc (c.note p) (.primitive p) where
  record n h := by cases h
  enum n h := by cases h
  members n ms h := by simp [composite?] at h
  noted q h := by
    cases h
    exact Context.noted_note _ _
  record_declared n h := by cases h
  enum_declared n h := by cases h
  wide n ms h := by rcases h with h | h <;> cases h
  firstWith n ms h := by simp [composite?] at h

theorem of_record {n : String} {ds : List String} {fs : List StructField} (hn : TypeName n)
    (hd : doc.types.get? n = some (.struct ds fs)) : NodeStable doc c (.record n) where
  record n' h := by
    cases h
    exact hn
  enum n' h := by cases h
  members n' ms h := by simp [composite?] at h
  noted p h := by cases h
  record_declared n' h := by
    cases h
    exact ⟨ds, fs, hd⟩
  enum_declared n' h := by cases h
  wide n' ms h := by rcases h with h | h <;> cases h
  firstWith n' ms h := by simp [composite?] at h

theorem of_enum {n : String} {ds : List String} {vs : List EnumVariant} (hn : TypeName n)
    (hd : doc.types.get? n = some (.enum ds vs)) : NodeStable doc c (.enum n) where
  record n' h := by cases h
  enum n' h := by
    cases h
    exact hn
  members n' ms h := by simp [composite?] at h
  noted p h := by cases h
  record_declared n' h := by cases h
  enum_declared n' h := by
    cases h
    exact ⟨ds, vs, hd⟩
  wide n' ms h := by rcases h with h | h <;> cases h
  firstWith n' ms h := by simp [composite?] at h

/-- A composite needs members, two of them for a group, registered first under its name. -/
theorem composite {n : String} {ms : List ResolvedType} (hu : u.composite? = some (n, ms))
    (hreg : c.composites.FirstWith n ms) (hne : ms ≠ [])
    (hwide : ∀ n' ms', u = .multi n' ms' ∨ u = .multiVariadic n' ms' → 2 ≤ ms'.length) :
    NodeStable doc c u where
  record n' h := by simp [h, composite?] at hu
  enum n' h := by simp [h, composite?] at hu
  members n' ms' h := by
    rw [hu, Option.some.injEq, Prod.mk.injEq] at h
    rw [← h.2]
    exact hne
  noted p h := by simp [h, composite?] at hu
  record_declared n' h := by simp [h, composite?] at hu
  enum_declared n' h := by simp [h, composite?] at hu
  wide := hwide
  firstWith n' ms' h := by
    rw [hu, Option.some.injEq, Prod.mk.injEq] at h
    rw [← h.1, ← h.2]
    exact hreg

end NodeStable

/-- The types `T` read back in `c` at every node. -/
def StableIn (doc : AbiDocument) (T : List ResolvedType) (c : Context) : Prop :=
  ∀ t ∈ T, AllNodes (NodeStable doc c) t

namespace StableIn

variable {doc : AbiDocument} {T : List ResolvedType} {c c' : Context}

theorem steps (h : StableIn doc T c) (hs : Relation.ReflTransGen Context.Step c c') :
    StableIn doc T c' :=
  fun t ht u hu => (h t ht u hu).mono (Context.Extends.of_steps hs)

/-- A node that reads back over parts that read back may take the parts' place. -/
theorem wrap {u : ResolvedType} (h : StableIn doc (T ++ u.parts) c) (hu : NodeStable doc c u) :
    StableIn doc (T ++ [u]) c := by
  intro t ht
  rcases List.mem_append.1 ht with ht | ht
  · exact h t (List.mem_append_left _ ht)
  · rw [List.mem_singleton.1 ht]
    exact allNodes_iff.2 ⟨hu, fun m hm => h m (List.mem_append_right _ hm)⟩

end StableIn

/-! ## Resolution leaves types that read back -/

section Resolution

variable {doc : AbiDocument}

/-- Registering members that read back leaves a composite built on the name answered that reads
back. -/
theorem registerComposite_stable {ms : List ResolvedType} (k : String → ResolvedType)
    (hk : ∀ n, (k n).composite? = some (n, ms)) (hne : ms ≠ [])
    (hwide : ∀ n n' ms', k n = .multi n' ms' ∨ k n = .multiVariadic n' ms' → 2 ≤ ms'.length)
    (T : List ResolvedType) :
    Triple (StableIn doc (T ++ ms)) (registerComposite ms) fun n => StableIn doc (T ++ [k n]) := by
  intro c n c' hc hr
  have hrun : ((registerComposite ms).run).run c =
      (.ok (c.composites.register ms).1, { c with composites := (c.composites.register ms).2 }) :=
    rfl
  rw [hrun] at hr
  cases hr
  have hc' := hc.steps (.single (.register c ms))
  refine StableIn.wrap ?_
    (NodeStable.composite (hk _) (Registry.firstWith_register _ ms) hne (hwide _))
  rwa [parts_of_composite (hk _)]

/-- Resolving an expression leaves a type that reads back at every node, and keeps reading back
what did before. -/
theorem resolveWith_stable (doc : AbiDocument) :
    ∀ (fuel : Nat) (expr : String) (T : List ResolvedType),
      Triple (StableIn doc T) (resolveWith doc fuel expr) fun t => StableIn doc (T ++ [t])
  | 0, _, _ => Triple.throw
  | fuel + 1, expr, T => by
    have members : ∀ inner, Triple (StableIn doc T) (resolveMembers (resolveWith doc fuel) inner)
        fun ms c => StableIn doc (T ++ ms) c ∧ ms ≠ [] := by
      intro inner
      unfold resolveMembers
      split
      · exact Triple.throw
      · rename_i parts hparts
        refine Triple.and ?_ (Triple.mapM_ne_nil (splitMembersAux_ne_nil hparts))
        refine Triple.conseq (Triple.mapM (I := fun acc => StableIn doc (T ++ acc))
          fun x _ acc => ?_) (fun c hc => by simpa using hc) fun _ _ h => h
        exact (resolveWith_stable doc fuel x (T ++ acc)).conseq (fun _ h => h)
          fun _ _ h => by simpa using h
    have composite : ∀ (k : String → List ResolvedType → ResolvedType) (ms : List ResolvedType),
        (∀ n, (k n ms).composite? = some (n, ms)) → ms ≠ [] →
        (∀ n n' ms', k n ms = .multi n' ms' ∨ k n ms = .multiVariadic n' ms' → 2 ≤ ms'.length) →
        Triple (StableIn doc (T ++ ms)) (do return k (← registerComposite ms) ms)
          fun t => StableIn doc (T ++ [t]) := fun k ms hk hne hwide =>
      Triple.bind (registerComposite_stable (fun n => k n ms) hk hne hwide T) fun _ =>
        Triple.pure fun _ h => h
    have wrapper : ∀ (k : ResolvedType → ResolvedType), (∀ i, k i = .list i ∨ k i = .variadic i) →
        ∀ i c, StableIn doc (T ++ [i]) c → StableIn doc (T ++ [k i]) c := by
      intro k hk i c hc
      refine StableIn.wrap ?_ (NodeStable.wrapper (hk i))
      rcases hk i with h | h <;> simpa [h, parts] using hc
    unfold resolveWith
    split
    · exact Triple.throw
    · rename_i p _
      refine Triple.bind (Triple.modify fun c hc => ?_) fun _ => Triple.pure fun _ h => h
      refine StableIn.wrap ?_ (NodeStable.primitive p)
      simpa [parts] using hc.steps (.single (.note c p))
    · rename_i n hparse
      split
      · rename_i ds fs hn
        exact Triple.pure fun c hc => StableIn.wrap (by simpa [parts] using hc)
          (NodeStable.of_record (typeName_of_parse hparse) hn)
      · rename_i ds vs hn
        exact Triple.pure fun c hc => StableIn.wrap (by simpa [parts] using hc)
          (NodeStable.of_enum (typeName_of_parse hparse) hn)
      · exact Triple.throw
    · exact Triple.bind (resolveWith_stable doc fuel _ T) fun i =>
        Triple.pure (wrapper ResolvedType.list (fun _ => .inl rfl) i)
    · exact Triple.bind (resolveWith_stable doc fuel _ T) fun i =>
        Triple.pure (wrapper ResolvedType.variadic (fun _ => .inr rfl) i)
    · refine Triple.bind (members _) fun ms => Triple.assume fun hne => ?_
      split
      · rename_i m
        exact Triple.pure (wrapper ResolvedType.variadic (fun _ => .inr rfl) m)
      · rename_i hsingle
        refine composite ResolvedType.multiVariadic ms (fun _ => rfl) hne ?_
        rintro n n' ms' (h | h) <;> cases h
        exact two_le_length_of_ne_singleton hne hsingle
    · refine Triple.bind (members _) fun ms => Triple.assume fun hne => ?_
      split
      · rename_i m
        exact Triple.pure (wrapper ResolvedType.list (fun _ => .inl rfl) m)
      · rename_i hsingle
        refine composite ResolvedType.multi ms (fun _ => rfl) hne ?_
        rintro n n' ms' (h | h) <;> cases h
        exact two_le_length_of_ne_singleton hne hsingle
    · refine Triple.bind (members _) fun ms => Triple.assume fun hne => ?_
      refine composite ResolvedType.tuple ms (fun _ => rfl) hne ?_
      rintro n n' ms' (h | h) <;> cases h

end Resolution

/-! ## Runs that change nothing -/

section Answers

variable {ε σ α β : Type} {s : σ}

/-- From `s`, `m` answers `a` and leaves `s` as it was. -/
def Answers (m : ExceptT ε (StateM σ) α) (s : σ) (a : α) : Prop :=
  (m.run).run s = (.ok a, s)

namespace Answers

theorem pure (a : α) : Answers (pure a : ExceptT ε (StateM σ) α) s a := rfl

theorem bind {m : ExceptT ε (StateM σ) α} {f : α → ExceptT ε (StateM σ) β} {a : α} {b : β}
    (hm : Answers m s a) (hf : Answers (f a) s b) : Answers (m >>= f) s b :=
  (run_bind_of_ok hm).trans hf

theorem modify_fixed {f : σ → σ} (h : f s = s) :
    Answers (modify f : ExceptT ε (StateM σ) PUnit) s PUnit.unit := by
  have hrun : ((modify f : ExceptT ε (StateM σ) PUnit).run).run s = (.ok PUnit.unit, f s) := rfl
  rw [Answers, hrun, h]

/-- Mapping over encoded items answers the items when each encoded item answers its item. -/
theorem mapM_map {f : β → ExceptT ε (StateM σ) α} {enc : α → β} :
    ∀ {xs : List α}, (∀ x ∈ xs, Answers (f (enc x)) s x) → Answers ((xs.map enc).mapM f) s xs
  | [], _ => by
    rw [List.map_nil, List.mapM_nil]
    exact Answers.pure []
  | x :: xs, h => by
    rw [List.map_cons, List.mapM_cons]
    exact (h x List.mem_cons_self).bind
      ((mapM_map fun y hy => h y (List.mem_cons_of_mem x hy)).bind (Answers.pure _))

end Answers

end Answers

/-! ## Printed types resolve to themselves -/

theorem depth_lt_of_mem_parts {t m : ResolvedType} (hm : m ∈ t.parts) : m.depth < t.depth := by
  cases t with
  | list i | variadic i =>
    have hi : m = i := by simpa [parts] using hm
    subst hi
    simp [depth]
  | multiVariadic _ ms | multi _ ms | tuple _ ms =>
    have := Wire.depth_le_depthList (by simpa [parts] using hm)
    simp only [depth]
    omega
  | primitive _ | record _ | enum _ => simp [parts] at hm

section Reresolution

variable {doc : AbiDocument} {c : Context}

theorem registerComposite_answers {n : String} {ms : List ResolvedType}
    (h : c.composites.FirstWith n ms) : Answers (registerComposite ms) c n := by
  have hrun : ((registerComposite ms).run).run c =
      (.ok (c.composites.register ms).1, { c with composites := (c.composites.register ms).2 }) :=
    rfl
  rw [Answers, hrun, h.register_eq]

/-- Printed members resolve to themselves when each member does. -/
theorem resolveMembers_displayList {fuel : Nat} {ms : List ResolvedType} (hne : ms ≠ [])
    (hp : ∀ m ∈ ms, AllNodes Printable m)
    (h : ∀ m ∈ ms, Answers (resolveWith doc fuel m.display) c m) :
    Answers (resolveMembers (resolveWith doc fuel) (displayList ms)) c ms := by
  unfold resolveMembers
  rw [splitMembers_displayList hne hp]
  exact Answers.mapM_map h

/-- A printed type with no simple variadic over a `multi` resolves to itself with as much fuel
as it nests, and changes nothing. -/
theorem resolveWith_display :
    ∀ (fuel : Nat) (t : ResolvedType), t.depth ≤ fuel → AllNodes (NodeStable doc c) t →
      (∀ n ms, ¬ Occurs (.variadic (.multi n ms)) t) → Answers (resolveWith doc fuel t.display) c t
  | 0, t, hd, _, _ => absurd hd (by cases t <;> simp [depth])
  | fuel + 1, t, hd, hs, hv => by
    have hp : AllNodes Printable t := fun u hu => (hs u hu).toPrintable
    have hpart : ∀ m ∈ t.parts, Answers (resolveWith doc fuel m.display) c m := fun m hm =>
      resolveWith_display fuel m (by have := depth_lt_of_mem_parts hm; omega) (hs.part hm)
        fun n ms ho => hv n ms (.part hm ho)
    have hmembers : ∀ n ms, t.composite? = some (n, ms) →
        Answers (resolveMembers (resolveWith doc fuel) (displayList ms)) c ms := fun n ms hc =>
      resolveMembers_displayList (hs.root.members n ms hc)
        (fun m hm => hp.part (by rwa [parts_of_composite hc]))
        (fun m hm => hpart m (by rwa [parts_of_composite hc]))
    have hbalanced : ∀ n ms, t.composite? = some (n, ms) → Balanced (displayList ms).toList :=
      fun n ms hc => balanced_displayList ms fun m hm => hp.part (by rwa [parts_of_composite hc])
    unfold resolveWith
    cases t with
    | primitive p =>
      rw [parse_display_primitive]
      exact (Answers.modify_fixed (hs.root.noted p rfl).note_eq).bind (Answers.pure _)
    | record n =>
      obtain ⟨ds, fs, hn⟩ := hs.root.record_declared n rfl
      rw [show display (.record n) = n from rfl, (hs.root.record n rfl).parse_eq]
      simp only [hn]
      exact Answers.pure _
    | enum n =>
      obtain ⟨ds, vs, hn⟩ := hs.root.enum_declared n rfl
      rw [show display (.enum n) = n from rfl, (hs.root.enum n rfl).parse_eq]
      simp only [hn]
      exact Answers.pure _
    | list i =>
      rw [parse_display_list (standalone_display i (hp.part (by simp [parts]))).segment.balanced]
      exact (hpart i (by simp [parts])).bind (Answers.pure _)
    | variadic i =>
      have hi := hp.part (m := i) (by simp [parts])
      rw [parse_display_variadic (standalone_display i hi)
        (display_item hi fun n ms h => hv n ms (h ▸ .refl))]
      exact (hpart i (by simp [parts])).bind (Answers.pure _)
    | multiVariadic n ms =>
      rw [parse_display_multiVariadic (hbalanced n ms rfl)]
      refine (hmembers n ms rfl).bind ?_
      have hwide := hs.root.wide n ms (.inr rfl)
      split
      · simp at hwide
      · exact (registerComposite_answers (hs.root.firstWith n ms rfl)).bind (Answers.pure _)
    | multi n ms =>
      rw [parse_display_multi (hbalanced n ms rfl)]
      refine (hmembers n ms rfl).bind ?_
      have hwide := hs.root.wide n ms (.inl rfl)
      split
      · simp at hwide
      · exact (registerComposite_answers (hs.root.firstWith n ms rfl)).bind (Answers.pure _)
    | tuple n ms =>
      rw [parse_display_tuple (hbalanced n ms rfl)]
      exact (hmembers n ms rfl).bind
        ((registerComposite_answers (hs.root.firstWith n ms rfl)).bind (Answers.pure _))

end Reresolution

/-! ## The printed form reads back -/

/-- The text a resolved type prints as resolves to the same type in the context resolution
left, unless it holds a simple variadic over a `multi`. -/
theorem display_reresolves (doc : AbiDocument) (e : String) (c : Context) {t : ResolvedType}
    {c' : Context} (h : ((resolve doc e).run).run c = (.ok t, c'))
    (hv : ∀ n ms, ¬ Occurs (.variadic (.multi n ms)) t) :
    ((resolve doc t.display).run).run c' = (.ok t, c') := by
  have hs := resolveWith_stable doc _ e [] c t c' (fun _ ht => absurd ht List.not_mem_nil) h
  exact resolveWith_display _ t (depth_le_length_display t) (hs t (by simp)) hv

theorem pair_amounts_reresolve :
    ((resolve pairContract "Option<List<tuple<u8,BigUint>>>").run).run
        (Context.forDocument pairContract) =
      (.ok (.list (.tuple "ComplexType0" [.primitive .u8, .primitive .bigUint])),
        { usesBigUint := true,
          composites := { entries := [("ComplexType0",
            compositeFields [.primitive .u8, .primitive .bigUint])], reserved := ["Position"] } }) ∧
    ((resolve pairContract
        (display (.list (.tuple "ComplexType0" [.primitive .u8, .primitive .bigUint])))).run).run
        { usesBigUint := true,
          composites := { entries := [("ComplexType0",
            compositeFields [.primitive .u8, .primitive .bigUint])], reserved := ["Position"] } } =
      (.ok (.list (.tuple "ComplexType0" [.primitive .u8, .primitive .bigUint])),
        { usesBigUint := true,
          composites := { entries := [("ComplexType0",
            compositeFields [.primitive .u8, .primitive .bigUint])], reserved := ["Position"] } }) := by
  refine ⟨rfl, display_reresolves pairContract "Option<List<tuple<u8,BigUint>>>"
    (Context.forDocument pairContract) rfl fun n ms h => ?_⟩
  rcases h with _ | ⟨hm, h⟩
  rw [List.mem_singleton.1 hm] at h
  rcases h with _ | ⟨hm, h⟩
  simp [parts] at hm
  rcases hm with rfl | rfl <;> rcases h with _ | ⟨hm, -⟩ <;> simp [parts] at hm

/-- A simple variadic over a `multi` prints as a repeating group, and its text resolves to one. -/
theorem display_does_not_always_reresolve :
    ¬ ∀ (doc : AbiDocument) (e : String) (c : Context) (t : ResolvedType) (c' : Context),
      ((resolve doc e).run).run c = (.ok t, c') →
        ((resolve doc t.display).run).run c' = (.ok t, c') := by
  intro h
  have hback := h pairContract "variadic<multi<multi<u8,u16>>>" (Context.forDocument pairContract)
    (.variadic (.multi "ComplexType0" [.primitive .u8, .primitive .u16]))
    { composites := { reserved := ["Position"],
                      entries := [("ComplexType0", compositeFields [.primitive .u8, .primitive .u16])] } }
    rfl
  have hgroup : (((resolve pairContract
      (display (.variadic (.multi "ComplexType0" [.primitive .u8, .primitive .u16])))).run).run
      { composites := { reserved := ["Position"],
                        entries := [("ComplexType0", compositeFields [.primitive .u8, .primitive .u16])] } }).1 =
      .ok (.multiVariadic "ComplexType0" [.primitive .u8, .primitive .u16]) := rfl
  rw [hback] at hgroup
  simp at hgroup

end ContractAbi
