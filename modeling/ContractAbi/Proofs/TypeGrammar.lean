import Mathlib
import ContractAbi.TypeExpr

/-!
# The grammar of type expressions

Reading a type expression is three scanners: one cuts `Head<inner>` at its first `<`, one peels
optional wrappers, and one cuts a member list at its top-level commas. Each tracks bracket depth
on its own. This module states what they accept as a grammar over the text, with no scanning in
it, and shows that reading accepts exactly that grammar.

Brackets balance when no prefix closes more than it opened and the whole closes what it opened
(`Balanced`). A generic form is a head with no `<`, an opening bracket, a balanced inner text and a
closing bracket that ends the text (`GenericForm`); that closing bracket is then the one that
closes the first. Optional wrappers are peeled while the trimmed text is such a form with head
`Option` or `optional` (`Peeled`). What is left reads as a primitive keyword, as one of the four
generic forms, or as a type name (`ReadsAs`). A member list is cut where a comma stands outside
every bracket (`TopSplit`).

Main statement: `type_expressions_follow_grammar`.
-/

namespace ContractAbi.TypeExpr

open Text

/-! ## Balanced brackets -/

/-- Brackets balance: no prefix closes more than it opened, and the whole closes all it opened. -/
structure Balanced (cs : List Char) : Prop where
  prefixes : ∀ p, p <+: cs → p.count '>' ≤ p.count '<'
  closed : cs.count '>' = cs.count '<'

theorem forall_prefix_cons {c : Char} {cs : List Char} {P : List Char → Prop} :
    (∀ p, p <+: c :: cs → P p) ↔ P [] ∧ ∀ t, t <+: cs → P (c :: t) := by
  constructor
  · intro h
    exact ⟨h [] (List.nil_prefix), fun t ht => h (c :: t) (List.prefix_cons_iff.2 (.inr ⟨t, rfl, ht⟩))⟩
  · rintro ⟨hnil, hcons⟩ p hp
    rcases List.prefix_cons_iff.1 hp with rfl | ⟨t, rfl, ht⟩
    · exact hnil
    · exact hcons t ht

/-- A prefix of two texts joined stops inside the first or runs into the second. -/
theorem prefix_append_cases {a b p : List Char} (h : p <+: a ++ b) :
    p <+: a ∨ ∃ r, r <+: b ∧ p = a ++ r := by
  rcases List.prefix_or_prefix_of_prefix h (List.prefix_append a b) with hp | ⟨r, rfl⟩
  · exact .inl hp
  · exact .inr ⟨r, (List.prefix_append_right_inj a).1 h, rfl⟩

theorem Balanced.append {a b : List Char} (ha : Balanced a) (hb : Balanced b) :
    Balanced (a ++ b) := by
  refine ⟨fun p hp => ?_, by simp [List.count_append, ha.closed, hb.closed]⟩
  rcases prefix_append_cases hp with hp | ⟨r, hr, rfl⟩
  · exact ha.prefixes p hp
  · have := hb.prefixes r hr
    simp only [List.count_append, ha.closed]
    omega

theorem balanced_of_no_brackets {x : List Char} (hopen : '<' ∉ x) (hclose : '>' ∉ x) :
    Balanced x := by
  refine ⟨fun p hp => ?_, by rw [List.count_eq_zero.2 hclose, List.count_eq_zero.2 hopen]⟩
  rw [List.count_eq_zero.2 fun h => hclose (hp.subset h)]
  exact Nat.zero_le _

/-- A balanced text in brackets is balanced. -/
theorem Balanced.wrap {inner : List Char} (h : Balanced inner) :
    Balanced ('<' :: (inner ++ ['>'])) := by
  refine ⟨fun p hp => ?_, ?_⟩
  · rcases List.prefix_cons_iff.1 hp with rfl | ⟨t, rfl, ht⟩
    · simp
    · simp only [List.count_cons_self, List.count_cons_of_ne (by decide : '<' ≠ '>')]
      rcases prefix_append_cases ht with ht | ⟨r, hr, rfl⟩
      · have := h.prefixes t ht
        omega
      · rcases List.prefix_cons_iff.1 hr with rfl | ⟨r', rfl, hr'⟩
        · simp only [List.append_nil]
          have := h.closed
          omega
        · rw [List.prefix_nil.1 hr']
          simp only [List.count_append, List.count_cons_self, List.count_nil,
            List.count_cons_of_ne (by decide : '>' ≠ '<')]
          have := h.closed
          omega
  · simp [List.count_append, h.closed]

/-- The depth scan starting at `d` ends at `e` exactly when no prefix closes more than `d` plus
what it opened, and `e` is `d` plus what the text opens less what it closes. -/
theorem depthAfter_eq_some_iff {cs : List Char} :
    ∀ {d e : Nat}, depthAfter d cs = some e ↔
      (∀ p, p <+: cs → p.count '>' ≤ d + p.count '<') ∧ e + cs.count '>' = d + cs.count '<' := by
  induction cs with
  | nil =>
    intro d e
    simp only [depthAfter, Option.some.injEq, List.count_nil, Nat.add_zero]
    constructor
    · rintro rfl
      refine ⟨fun p hp => ?_, rfl⟩
      rw [List.prefix_nil.1 hp]
      simp
    · exact fun h => h.2.symm
  | cons c cs ih =>
    intro d e
    rw [forall_prefix_cons]
    by_cases hopen : c = '<'
    · subst hopen
      have hstep : depthAfter d ('<' :: cs) = depthAfter (d + 1) cs := by simp [depthAfter]
      rw [hstep, ih]
      simp only [List.count_cons_self, List.count_cons_of_ne (by decide : '<' ≠ '>'),
        List.count_nil]
      constructor
      · rintro ⟨hp, he⟩
        exact ⟨⟨by omega, fun t ht => by have := hp t ht; omega⟩, by omega⟩
      · rintro ⟨⟨-, hp⟩, he⟩
        exact ⟨fun t ht => by have := hp t ht; omega, by omega⟩
    by_cases hclose : c = '>'
    · subst hclose
      cases d with
      | zero =>
        have hstep : depthAfter 0 ('>' :: cs) = none := by simp [depthAfter]
        rw [hstep]
        simp only [reduceCtorEq, false_iff, not_and]
        intro h
        have := h.2 [] List.nil_prefix
        simp at this
      | succ d =>
        have hstep : depthAfter (d + 1) ('>' :: cs) = depthAfter d cs := by simp [depthAfter]
        rw [hstep, ih]
        simp only [List.count_cons_self, List.count_cons_of_ne (by decide : '>' ≠ '<'),
          List.count_nil]
        constructor
        · rintro ⟨hp, he⟩
          exact ⟨⟨by omega, fun t ht => by have := hp t ht; omega⟩, by omega⟩
        · rintro ⟨⟨-, hp⟩, he⟩
          exact ⟨fun t ht => by have := hp t ht; omega, by omega⟩
    · have hstep : depthAfter d (c :: cs) = depthAfter d cs := by simp [depthAfter, hopen, hclose]
      rw [hstep, ih]
      simp only [List.count_cons_of_ne hopen, List.count_cons_of_ne hclose,
        List.count_nil]
      constructor
      · rintro ⟨hp, he⟩
        exact ⟨⟨by omega, hp⟩, he⟩
      · rintro ⟨⟨-, hp⟩, he⟩
        exact ⟨hp, he⟩

theorem balanced_iff {cs : List Char} : balanced cs = true ↔ Balanced cs := by
  rw [balanced, beq_iff_eq, depthAfter_eq_some_iff]
  constructor
  · rintro ⟨hp, he⟩
    exact ⟨fun p h => by simpa using hp p h, by omega⟩
  · rintro ⟨hp, he⟩
    exact ⟨fun p h => by simpa using hp p h, by omega⟩

/-! ## Generic forms -/

/-- `e` is `H<inner>`: a head `H` holding no `<` and not blank once trimmed to `head`, the first
`<`, a balanced `inner`, and a `>` that ends the text, which therefore closes the first `<`. -/
def GenericForm (e head inner : List Char) : Prop :=
  ∃ H, e = H ++ '<' :: (inner ++ ['>']) ∧ '<' ∉ H ∧ head = trimChars H ∧ head ≠ [] ∧
    Balanced inner

/-- A text is cut at its first `<`: what comes before holds none. -/
theorem cut_at_first_open {e after : List Char} {x : Char}
    (h : e.dropWhile (· ≠ '<') = x :: after) :
    x = '<' ∧ e = e.takeWhile (· ≠ '<') ++ '<' :: after ∧ '<' ∉ e.takeWhile (· ≠ '<') := by
  have hx := List.head_dropWhile_not (· ≠ '<') (l := e) (by rw [h]; exact List.cons_ne_nil _ _)
  simp only [h, List.head_cons, decide_eq_false_iff_not, Decidable.not_not] at hx
  subst hx
  refine ⟨rfl, ?_, fun hmem => ?_⟩
  · rw [← h, List.takeWhile_append_dropWhile]
  · simpa using List.mem_takeWhile_imp hmem

theorem first_open_of_not_mem {H rest : List Char} (hH : '<' ∉ H) :
    (H ++ '<' :: rest).dropWhile (· ≠ '<') = '<' :: rest ∧
      (H ++ '<' :: rest).takeWhile (· ≠ '<') = H := by
  have hall : ∀ x ∈ H, decide (x ≠ '<') = true := by
    intro x hx
    simp only [decide_eq_true_eq]
    rintro rfl
    exact hH hx
  constructor
  · rw [List.dropWhile_append, List.dropWhile_eq_nil_iff.2 hall]
    simp
  · rw [List.takeWhile_append, List.takeWhile_eq_self_iff.2 hall]
    simp

/-- The last character of a text that has a `<` before its end. -/
theorem getLast?_cut {H after : List Char} {c : Char}
    (h : (H ++ '<' :: after).getLast? = some c) (hc : c ≠ '<') :
    after = after.dropLast ++ [c] := by
  rcases List.eq_nil_or_concat' after with rfl | ⟨L, b, rfl⟩
  · simp at h
    exact absurd h.symm hc
  · have hlast : (H ++ '<' :: (L ++ [b])).getLast? = some b := by
      rw [← List.cons_append, ← List.append_assoc, List.getLast?_concat]
    rw [hlast, Option.some.injEq] at h
    subst h
    simp

/-- Cutting `Head<inner>` succeeds exactly on a generic form, with its trimmed head and inner
text. -/
theorem splitGeneric_eq_some_iff {e head inner : List Char} :
    splitGeneric e = .ok (some (head, inner)) ↔ GenericForm e head inner := by
  constructor
  · intro h
    unfold splitGeneric at h
    split at h
    · split at h <;> cases h
    · rename_i x after hd
      obtain ⟨rfl, he, hH⟩ := cut_at_first_open hd
      split at h
      · cases h
      · rename_i hlast
        simp only [ne_eq, Decidable.not_not] at hlast
        dsimp only at h
        split at h
        · rename_i hok
          simp only [Except.ok.injEq, Option.some.injEq, Prod.mk.injEq] at h
          obtain ⟨rfl, rfl⟩ := h
          simp only [Bool.and_eq_true, Bool.not_eq_true', List.isEmpty_eq_false_iff] at hok
          have hafter := getLast?_cut (he ▸ hlast) (by decide)
          refine ⟨_, ?_, hH, rfl, hok.2, balanced_iff.1 hok.1⟩
          rw [← hafter]
          exact he
        · cases h
  · rintro ⟨H, rfl, hH, rfl, hne, hbal⟩
    obtain ⟨hdrop, htake⟩ := @first_open_of_not_mem H (inner ++ ['>']) hH
    have hlast : (H ++ '<' :: (inner ++ ['>'])).getLast? = some '>' := by
      rw [← List.cons_append, ← List.append_assoc, List.getLast?_concat]
    unfold splitGeneric
    simp only [hdrop, hlast, htake, ne_eq, not_true_eq_false, if_false, List.dropLast_concat,
      balanced_iff.2 hbal, Bool.true_and, Bool.not_eq_true', List.isEmpty_eq_false_iff.2 hne,
      if_true]

/-- Cutting `Head<inner>` finds no generic form exactly when the text has no angle bracket. -/
theorem splitGeneric_eq_none_iff {e : List Char} :
    splitGeneric e = .ok none ↔ '<' ∉ e ∧ '>' ∉ e := by
  unfold splitGeneric
  split
  · rename_i hd
    have hopen : '<' ∉ e := by
      intro hmem
      have := List.dropWhile_eq_nil_iff.1 hd '<' hmem
      simp at this
    split
    · rename_i hclose
      simp only [reduceCtorEq, false_iff, not_and, Decidable.not_not]
      exact fun _ => List.contains_iff_mem.1 hclose
    · rename_i hclose
      simp only [List.contains_iff_mem] at hclose
      simp [hopen, hclose]
  · rename_i x after hd
    obtain ⟨rfl, he, -⟩ := cut_at_first_open hd
    have hopen : '<' ∈ e := by
      rw [he]
      simp
    simp only [hopen, not_true_eq_false, false_and, iff_false]
    split
    · exact fun h => by cases h
    · split <;> exact fun h => by cases h

/-- A text is a generic form in at most one way. -/
theorem GenericForm.unique {e h h' i i' : List Char} (hf : GenericForm e h i)
    (hf' : GenericForm e h' i') : h = h' ∧ i = i' := by
  have := (splitGeneric_eq_some_iff.2 hf).symm.trans (splitGeneric_eq_some_iff.2 hf')
  simp only [Except.ok.injEq, Option.some.injEq, Prod.mk.injEq] at this
  exact this

/-! ## Optional wrappers -/

/-- `x` is what is left of `s` once its blanks are trimmed and its outer `Option<...>` and
`optional<...>` wrappers are peeled, each inner text trimmed in turn. -/
inductive Peeled : List Char → List Char → Prop
  | bare {s : List Char} :
      (∀ w i, GenericForm (trimChars s) w i → w ∉ optionalWrappers) → Peeled s (trimChars s)
  | wrapped {s w i x : List Char} : GenericForm (trimChars s) w i → w ∈ optionalWrappers →
      Peeled i x → Peeled s x

theorem stripOptionalChars_of_peeled {s x : List Char} (h : Peeled s x) :
    stripOptionalChars s = x := by
  induction h with
  | bare hw =>
    rw [stripOptionalChars_eq]
    split
    · rename_i w i hsplit
      have hnot := hw w i (splitGeneric_eq_some_iff.1 hsplit)
      rw [if_neg (fun hc => hnot (List.contains_iff_mem.1 hc))]
    · rfl
  | wrapped hf hw _ ih =>
    rw [stripOptionalChars_eq, splitGeneric_eq_some_iff.2 hf]
    dsimp only
    rw [if_pos (List.contains_iff_mem.2 hw)]
    exact ih

theorem peeled_stripOptionalChars (s : List Char) : Peeled s (stripOptionalChars s) := by
  induction hn : s.length using Nat.strong_induction_on generalizing s with
  | _ n ih =>
    rw [stripOptionalChars_eq]
    split
    · rename_i w i hsplit
      have hf := splitGeneric_eq_some_iff.1 hsplit
      split
      · rename_i hw
        have hlt : i.length < n := by
          have := splitGeneric_inner_length hsplit
          have := trimChars_length_le s
          omega
        exact .wrapped hf (List.contains_iff_mem.1 hw) (ih _ hlt i rfl)
      · rename_i hw
        refine .bare fun w' i' hf' => ?_
        obtain ⟨rfl, -⟩ := hf'.unique hf
        exact fun hmem => hw (List.contains_iff_mem.2 hmem)
    · rename_i hnot
      exact .bare fun w i hf => absurd (splitGeneric_eq_some_iff.2 hf) (hnot w i)

/-- Stripping optional wrappers answers exactly what peeling leaves. -/
theorem peeled_iff {s x : List Char} : Peeled s x ↔ stripOptionalChars s = x :=
  ⟨stripOptionalChars_of_peeled, fun h => h ▸ peeled_stripOptionalChars s⟩

/-! ## Forms -/

theorem keyword_of_ofKeyword? {s : String} {p : Primitive} (h : Primitive.ofKeyword? s = some p) :
    p.keyword = s := by
  have := List.find?_some h
  simpa using this

/-- No keyword has an angle bracket. -/
theorem open_not_mem_keyword (p : Primitive) : '<' ∉ p.keyword.toList := by
  cases p <;> decide

theorem open_not_mem_of_ofKeyword? {x : List Char} {p : Primitive}
    (h : Primitive.ofKeyword? (String.ofList x) = some p) : '<' ∉ x := by
  have hx : x = p.keyword.toList := by
    rw [keyword_of_ofKeyword? h, String.toList_ofList]
  rw [hx]
  exact open_not_mem_keyword p

theorem GenericForm.open_mem {x h i : List Char} (hf : GenericForm x h i) : '<' ∈ x := by
  obtain ⟨H, rfl, -⟩ := hf
  simp

theorem GenericForm.ofKeyword?_eq_none {x h i : List Char} (hf : GenericForm x h i) :
    Primitive.ofKeyword? (String.ofList x) = none := by
  cases hk : Primitive.ofKeyword? (String.ofList x) with
  | none => rfl
  | some p => exact absurd hf.open_mem (open_not_mem_of_ofKeyword? hk)

/-- A type name: an ASCII letter or an underscore, then ASCII letters, digits and underscores. -/
def Identifier (x : List Char) : Prop :=
  ∃ c cs, x = c :: cs ∧ (c.isAlpha = true ∨ c = '_') ∧ ∀ d ∈ cs, d.isAlphanum = true ∨ d = '_'

theorem isTypeName_iff {x : List Char} : isTypeName x = true ↔ Identifier x := by
  cases x with
  | nil => simp [isTypeName, Identifier]
  | cons c cs => simp [isTypeName, Identifier]

theorem Identifier.no_brackets {x : List Char} (h : Identifier x) : '<' ∉ x ∧ '>' ∉ x := by
  obtain ⟨c, cs, rfl, hc, hcs⟩ := h
  constructor
  · rintro (_ | ⟨_, hmem⟩)
    · rcases hc with hc | hc <;> revert hc <;> decide
    · rcases hcs '<' hmem with hd | hd <;> revert hd <;> decide
  · rintro (_ | ⟨_, hmem⟩)
    · rcases hc with hc | hc <;> revert hc <;> decide
    · rcases hcs '>' hmem with hd | hd <;> revert hd <;> decide

/-- What the grammar reads a text with no optional wrapper as: a keyword, a generic form with its
inner text, or a type name that is no keyword. -/
inductive ReadsAs : List Char → TypeForm → Prop
  | primitive {x : List Char} {p : Primitive} :
      Primitive.ofKeyword? (String.ofList x) = some p → ReadsAs x (.primitive p)
  | list {x i : List Char} : GenericForm x "List".toList i → ReadsAs x (.list (String.ofList i))
  | variadic {x i : List Char} : GenericForm x "variadic".toList i →
      ('<' ∉ trimChars i ∧ '>' ∉ trimChars i) ∨
        (∃ h j, GenericForm (trimChars i) h j ∧ h ≠ "multi".toList) →
      ReadsAs x (.variadic (String.ofList i))
  | multiVariadic {x i j : List Char} : GenericForm x "variadic".toList i →
      GenericForm (trimChars i) "multi".toList j → ReadsAs x (.multiVariadic (String.ofList j))
  | multi {x i : List Char} : GenericForm x "multi".toList i → ReadsAs x (.multi (String.ofList i))
  | tuple {x i : List Char} : GenericForm x "tuple".toList i → ReadsAs x (.tuple (String.ofList i))
  | named {x : List Char} : Primitive.ofKeyword? (String.ofList x) = none → Identifier x →
      ReadsAs x (.named (String.ofList x))

/-- The grammar's reading is the reader's answer. -/
theorem parse_of_readsAs {s : String} {f : TypeForm} (hne : stripOptionalChars s.toList ≠ [])
    (h : ReadsAs (stripOptionalChars s.toList) f) : parse s = .ok f := by
  unfold parse
  generalize stripOptionalChars s.toList = x at hne h
  simp only [bind, Except.bind, pure, Except.pure, throw, throwThe, MonadExceptOf.throw]
  rw [if_neg (by simpa using hne)]
  cases h with
  | primitive hk => simp only [hk]
  | list hf =>
    simp only [hf.ofKeyword?_eq_none, splitGeneric_eq_some_iff.2 hf]
    simp
  | variadic hf hinner =>
    simp only [hf.ofKeyword?_eq_none, splitGeneric_eq_some_iff.2 hf]
    rcases hinner with hno | ⟨h, j, hf', hh⟩
    · simp [splitGeneric_eq_none_iff.2 hno]
    · have hhead : ("variadic".toList == "List".toList) = false := by decide
      simp only [splitGeneric_eq_some_iff.2 hf', hhead, beq_self_eq_true, beq_iff_eq, hh,
        Bool.false_eq_true, ↓reduceIte]
  | multiVariadic hf hf' =>
    simp only [hf.ofKeyword?_eq_none, splitGeneric_eq_some_iff.2 hf, splitGeneric_eq_some_iff.2 hf']
    simp
  | multi hf =>
    simp only [hf.ofKeyword?_eq_none, splitGeneric_eq_some_iff.2 hf]
    simp
  | tuple hf =>
    simp only [hf.ofKeyword?_eq_none, splitGeneric_eq_some_iff.2 hf]
    simp
  | named hk hid =>
    simp only [hk, splitGeneric_eq_none_iff.2 hid.no_brackets, isTypeName_iff.2 hid]
    simp

theorem readsAs_of_parse {s : String} {f : TypeForm} (h : parse s = .ok f) :
    stripOptionalChars s.toList ≠ [] ∧ ReadsAs (stripOptionalChars s.toList) f := by
  unfold parse at h
  generalize stripOptionalChars s.toList = x at h ⊢
  simp only [bind, Except.bind, pure, Except.pure, throw, throwThe, MonadExceptOf.throw] at h
  split at h
  · cases h
  rename_i hne
  refine ⟨by simpa using hne, ?_⟩
  split at h
  · rename_i p hk
    cases h
    exact .primitive hk
  rename_i hk
  split at h
  · cases h
  rename_i v hs
  split at h
  · rename_i head inner
    have hf := splitGeneric_eq_some_iff.1 hs
    split at h
    · rename_i hl
      cases h
      simp only [beq_iff_eq] at hl
      subst hl
      exact .list hf
    split at h
    · rename_i hv
      simp only [beq_iff_eq] at hv
      subst hv
      split at h
      · cases h
      rename_i w hs'
      split at h
      · rename_i h' members
        have hf' := splitGeneric_eq_some_iff.1 hs'
        split at h
        · rename_i hm
          cases h
          simp only [beq_iff_eq] at hm
          subst hm
          exact .multiVariadic hf hf'
        · rename_i hm
          cases h
          simp only [beq_iff_eq] at hm
          exact .variadic hf (.inr ⟨h', members, hf', hm⟩)
      · cases h
        exact .variadic hf (.inl (splitGeneric_eq_none_iff.1 hs'))
    split at h
    · rename_i hm
      cases h
      simp only [beq_iff_eq] at hm
      subst hm
      exact .multi hf
    split at h
    · rename_i ht
      cases h
      simp only [beq_iff_eq] at ht
      subst ht
      exact .tuple hf
    · cases h
  · split at h
    · rename_i hid
      cases h
      exact .named hk (isTypeName_iff.1 hid)
    · cases h

/-- Reading a type expression answers a form exactly when the text left by peeling is not empty
and the grammar reads it as that form. -/
theorem parse_eq_ok_iff {s : String} {f : TypeForm} :
    parse s = .ok f ↔ stripOptionalChars s.toList ≠ [] ∧ ReadsAs (stripOptionalChars s.toList) f :=
  ⟨readsAs_of_parse, fun h => parse_of_readsAs h.1 h.2⟩

example : parse "optional<variadic< multi<u8,u16> >>" = .ok (.multiVariadic "u8,u16") := by rfl

/-! ## Member lists -/

/-- No comma of `seg` stands outside its brackets: before each comma more is opened than closed. -/
def NoTopComma (seg : List Char) : Prop :=
  ∀ p q, seg = p ++ ',' :: q → p.count '>' < p.count '<'

/-- One member of a list: balanced, with no comma outside its brackets. -/
structure Segment (seg : List Char) : Prop where
  balanced : Balanced seg
  noTopComma : NoTopComma seg

/-- `s` cut at its top-level commas into `segs`: the members joined by commas give `s`. -/
structure TopSplit (s : List Char) (segs : List (List Char)) : Prop where
  ne_nil : segs ≠ []
  join : s = [','].intercalate segs
  segments : ∀ seg ∈ segs, Segment seg

theorem topSplit_singleton {s seg : List Char} : TopSplit s [seg] ↔ s = seg ∧ Segment seg := by
  constructor
  · intro h
    exact ⟨by simpa using h.join, h.segments seg (List.mem_singleton_self _)⟩
  · rintro ⟨rfl, hseg⟩
    exact ⟨List.cons_ne_nil _ _, by simp, fun t ht => by rw [List.mem_singleton.1 ht]; exact hseg⟩

theorem topSplit_cons_cons {s seg seg' : List Char} {rest : List (List Char)} :
    TopSplit s (seg :: seg' :: rest) ↔
      ∃ r, s = seg ++ ',' :: r ∧ Segment seg ∧ TopSplit r (seg' :: rest) := by
  constructor
  · intro h
    refine ⟨_, ?_, h.segments seg List.mem_cons_self, List.cons_ne_nil _ _, rfl,
      fun t ht => h.segments t (List.mem_cons_of_mem _ ht)⟩
    rw [h.join, List.intercalate_cons_cons]
    simp
  · rintro ⟨r, rfl, hseg, hr⟩
    refine ⟨List.cons_ne_nil _ _, ?_, fun t ht => ?_⟩
    · rw [List.intercalate_cons_cons, hr.join]
      simp
    · rcases List.mem_cons.1 ht with rfl | ht
      · exact hseg
      · exact hr.segments t ht

/-- The depth at a comma of a member is never zero. -/
theorem Segment.depthAfter_ne_zero {seg p q : List Char} (h : Segment seg)
    (hp : seg = p ++ ',' :: q) : depthAfter 0 p ≠ some 0 := by
  intro hd
  have hlt := h.noTopComma p q hp
  have := (depthAfter_eq_some_iff.1 hd).2
  omega

section Scan

variable {whole : String} {member cs : List Char} {d : Nat}

theorem splitMembersAux_open :
    splitMembersAux whole d member ('<' :: cs) = splitMembersAux whole (d + 1) ('<' :: member) cs := by
  cases d <;> simp [splitMembersAux]

theorem splitMembersAux_close_zero :
    splitMembersAux whole 0 member ('>' :: cs) = .error ⟨whole⟩ := by
  simp [splitMembersAux]

theorem splitMembersAux_close :
    splitMembersAux whole (d + 1) member ('>' :: cs) = splitMembersAux whole d ('>' :: member) cs := by
  simp [splitMembersAux]

theorem splitMembersAux_cut :
    splitMembersAux whole 0 member (',' :: cs) =
      if (trimChars member.reverse).isEmpty then .error ⟨whole⟩
      else (splitMembersAux whole 0 [] cs).map (String.ofList (trimChars member.reverse) :: ·) := by
  simp [splitMembersAux]

theorem splitMembersAux_keep {c : Char} (hopen : c ≠ '<') (hclose : c ≠ '>')
    (hcut : ¬ (c = ',' ∧ d = 0)) :
    splitMembersAux whole d member (c :: cs) = splitMembersAux whole d (c :: member) cs := by
  cases d <;> simp_all [splitMembersAux]

theorem splitMembersAux_end :
    splitMembersAux whole d member [] =
      if d ≠ 0 then .error ⟨whole⟩
      else if (trimChars member.reverse).isEmpty then .error ⟨whole⟩
      else .ok [String.ofList (trimChars member.reverse)] := by
  simp [splitMembersAux]

end Scan

/-- Scanning text whose commas all stand inside brackets cuts nothing: it only moves the text to
the member being read and the depth to where the text leaves it. -/
theorem splitMembersAux_quiet {whole : String} {rest : List Char} :
    ∀ {cs member : List Char} {d e : Nat}, depthAfter d cs = some e →
      (∀ p q, cs = p ++ ',' :: q → depthAfter d p ≠ some 0) →
      splitMembersAux whole d member (cs ++ rest) =
        splitMembersAux whole e (cs.reverse ++ member) rest
  | [], member, d, e, hd, _ => by
    simp only [depthAfter, Option.some.injEq] at hd
    subst hd
    rfl
  | c :: cs, member, d, e, hd, hc => by
    by_cases hopen : c = '<'
    · subst hopen
      have hd' : depthAfter (d + 1) cs = some e := by simpa [depthAfter] using hd
      have hc' : ∀ p q, cs = p ++ ',' :: q → depthAfter (d + 1) p ≠ some 0 := by
        intro p q hp
        have := hc ('<' :: p) q (by rw [hp]; rfl)
        simpa [depthAfter] using this
      rw [List.cons_append, splitMembersAux_open, splitMembersAux_quiet hd' hc']
      simp
    by_cases hclose : c = '>'
    · subst hclose
      cases d with
      | zero => simp [depthAfter] at hd
      | succ d =>
        have hd' : depthAfter d cs = some e := by simpa [depthAfter] using hd
        have hc' : ∀ p q, cs = p ++ ',' :: q → depthAfter d p ≠ some 0 := by
          intro p q hp
          have := hc ('>' :: p) q (by rw [hp]; rfl)
          simpa [depthAfter] using this
        rw [List.cons_append, splitMembersAux_close, splitMembersAux_quiet hd' hc']
        simp
    · have hcut : ¬ (c = ',' ∧ d = 0) := by
        rintro ⟨rfl, rfl⟩
        exact hc [] cs rfl rfl
      have hd' : depthAfter d cs = some e := by simpa [depthAfter, hopen, hclose] using hd
      have hc' : ∀ p q, cs = p ++ ',' :: q → depthAfter d p ≠ some 0 := by
        intro p q hp
        have := hc (c :: p) q (by rw [hp]; rfl)
        simpa [depthAfter, hopen, hclose] using this
      rw [List.cons_append, splitMembersAux_keep hopen hclose hcut, splitMembersAux_quiet hd' hc']
      simp

/-- Scanning one member moves all of it to the member being read. -/
theorem splitMembersAux_segment {whole : String} {seg rest member : List Char}
    (h : Segment seg) :
    splitMembersAux whole 0 member (seg ++ rest) =
      splitMembersAux whole 0 (seg.reverse ++ member) rest := by
  refine splitMembersAux_quiet ?_ fun p q hp => h.depthAfter_ne_zero hp
  exact depthAfter_eq_some_iff.2 ⟨fun p hp => by simpa using h.balanced.prefixes p hp,
    by simpa using h.balanced.closed⟩

/-- Cutting a list split at its top-level commas answers its trimmed members, unless one is blank. -/
theorem splitMembersAux_of_topSplit {whole : String} :
    ∀ {segs : List (List Char)} {s : List Char}, TopSplit s segs →
      splitMembersAux whole 0 [] s =
        if ∀ seg ∈ segs, trimChars seg ≠ [] then .ok (segs.map fun seg => String.ofList (trimChars seg))
        else .error ⟨whole⟩
  | [], _, h => absurd rfl h.ne_nil
  | [seg], s, h => by
    obtain ⟨hs, hseg⟩ := topSplit_singleton.1 h
    have hscan := @splitMembersAux_segment whole seg [] [] hseg
    rw [List.append_nil, List.append_nil] at hscan
    rw [hs, hscan, splitMembersAux_end]
    by_cases hblank : trimChars seg = []
    · simp [hblank]
    · simp [hblank]
  | seg :: seg' :: rest, s, h => by
    obtain ⟨r, rfl, hseg, hr⟩ := topSplit_cons_cons.1 h
    rw [splitMembersAux_segment hseg, List.append_nil, splitMembersAux_cut, List.reverse_reverse,
      splitMembersAux_of_topSplit hr]
    by_cases hblank : trimChars seg = []
    · simp [hblank]
    · rw [if_neg (by simpa using hblank)]
      by_cases hrest : ∀ t ∈ seg' :: rest, trimChars t ≠ []
      · have hall : ∀ t ∈ seg :: seg' :: rest, trimChars t ≠ [] := by
          intro t ht
          rcases List.mem_cons.1 ht with rfl | ht
          · exact hblank
          · exact hrest t ht
        rw [if_pos hrest, if_pos hall]
        rfl
      · have hall : ¬ ∀ t ∈ seg :: seg' :: rest, trimChars t ≠ [] :=
          fun hall => hrest fun t ht => hall t (List.mem_cons_of_mem _ ht)
        rw [if_neg hrest, if_neg hall]
        rfl

/-- A list that cuts has balanced brackets. -/
theorem depthAfter_of_splitMembersAux {whole : String} :
    ∀ {cs member : List Char} {d : Nat} {ms : List String},
      splitMembersAux whole d member cs = .ok ms → depthAfter d cs = some 0
  | [], member, d, ms, h => by
    rw [splitMembersAux_end] at h
    by_cases hd : d = 0
    · simp [hd, depthAfter]
    · simp [hd] at h
  | c :: cs, member, d, ms, h => by
    by_cases hopen : c = '<'
    · subst hopen
      rw [splitMembersAux_open] at h
      simpa [depthAfter] using depthAfter_of_splitMembersAux h
    by_cases hclose : c = '>'
    · subst hclose
      cases d with
      | zero =>
        rw [splitMembersAux_close_zero] at h
        cases h
      | succ d =>
        rw [splitMembersAux_close] at h
        simpa [depthAfter] using depthAfter_of_splitMembersAux h
    by_cases hcut : c = ',' ∧ d = 0
    · obtain ⟨rfl, rfl⟩ := hcut
      rw [splitMembersAux_cut] at h
      split at h
      · cases h
      · cases hrest : splitMembersAux whole 0 [] cs with
        | error e =>
          rw [hrest] at h
          cases h
        | ok ms' =>
          simpa [depthAfter] using depthAfter_of_splitMembersAux hrest
    · rw [splitMembersAux_keep hopen hclose hcut] at h
      simpa [depthAfter, hopen, hclose] using depthAfter_of_splitMembersAux h

/-- A comma-free prefix `m` of a balanced text extends to a cut of the whole text; the induction
is on what follows `m`, which joins `m` until a comma stands outside every bracket. -/
theorem exists_topSplit_extending :
    ∀ {cs m : List Char}, NoTopComma m → Balanced (m ++ cs) → ∃ segs, TopSplit (m ++ cs) segs
  | [], m, hm, hb => by
    rw [List.append_nil] at hb ⊢
    exact ⟨[m], topSplit_singleton.2 ⟨rfl, hb, hm⟩⟩
  | c :: cs, m, hm, hb => by
    have hprefix : m.count '>' ≤ m.count '<' := hb.prefixes m (List.prefix_append _ _)
    by_cases hcut : c = ',' ∧ m.count '<' = m.count '>'
    · obtain ⟨rfl, hclosed⟩ := hcut
      have hmb : Balanced m := ⟨fun p hp => hb.prefixes p (hp.trans (List.prefix_append _ _)),
        hclosed.symm⟩
      have hrest : Balanced cs := by
        refine ⟨fun p hp => ?_, ?_⟩
        · have := hb.prefixes (m ++ ',' :: p) ((List.prefix_append_right_inj m).2
            (List.prefix_cons_iff.2 (.inr ⟨p, rfl, hp⟩)))
          simp only [List.count_append, List.count_cons_of_ne (by decide : ',' ≠ '>'),
            List.count_cons_of_ne (by decide : ',' ≠ '<')] at this
          omega
        · have := hb.closed
          simp only [List.count_append, List.count_cons_of_ne (by decide : ',' ≠ '>'),
            List.count_cons_of_ne (by decide : ',' ≠ '<')] at this
          omega
      obtain ⟨segs, hsegs⟩ := exists_topSplit_extending (m := []) (fun p q h => by simp at h) hrest
      obtain ⟨seg', rest, rfl⟩ := List.exists_cons_of_ne_nil hsegs.ne_nil
      exact ⟨m :: seg' :: rest, topSplit_cons_cons.2 ⟨cs, rfl, ⟨hmb, hm⟩, hsegs⟩⟩
    · have hm' : NoTopComma (m ++ [c]) := by
        intro p q hpq
        rcases List.eq_nil_or_concat' q with rfl | ⟨q', b, rfl⟩
        · obtain ⟨rfl, hc⟩ := List.append_inj' hpq rfl
          simp only [List.cons.injEq, and_true] at hc
          subst hc
          have : m.count '<' ≠ m.count '>' := fun h => hcut ⟨rfl, h⟩
          omega
        · have hpq' : m ++ [c] = (p ++ ',' :: q') ++ [b] := by simpa using hpq
          exact hm p q' (List.append_inj_left' hpq' rfl)
      have := @exists_topSplit_extending cs (m ++ [c]) hm' (by simpa using hb)
      simpa using this

theorem exists_topSplit {s : List Char} (h : Balanced s) : ∃ segs, TopSplit s segs :=
  exists_topSplit_extending (m := []) (fun p q h => by simp at h) h

/-- Cutting a member list answers its trimmed top-level members, exactly when none is blank. -/
theorem splitMembers_eq_ok_iff {inner : String} {ms : List String} :
    splitMembers inner = .ok ms ↔ ∃ segs, TopSplit inner.toList segs ∧
      (∀ seg ∈ segs, trimChars seg ≠ []) ∧ ms = segs.map fun seg => String.ofList (trimChars seg) := by
  constructor
  · intro h
    have hb : Balanced inner.toList := by
      have hd := depthAfter_of_splitMembersAux h
      exact ⟨fun p hp => by simpa using (depthAfter_eq_some_iff.1 hd).1 p hp,
        by simpa using (depthAfter_eq_some_iff.1 hd).2⟩
    obtain ⟨segs, hsegs⟩ := exists_topSplit hb
    have hcut := @splitMembersAux_of_topSplit inner _ _ hsegs
    unfold splitMembers at h
    split at hcut
    · rename_i hne
      rw [hcut, Except.ok.injEq] at h
      exact ⟨segs, hsegs, hne, h.symm⟩
    · rw [hcut] at h
      cases h
  · rintro ⟨segs, hsegs, hne, rfl⟩
    unfold splitMembers
    rw [splitMembersAux_of_topSplit hsegs, if_pos hne]

example : splitMembers " u8 , tuple<u16,u32>" = .ok ["u8", "tuple<u16,u32>"] := by rfl

/-- A member list cuts exactly when its brackets balance and no member between top-level commas
is blank. -/
theorem splitMembers_ok_iff {inner : String} :
    (∃ ms, splitMembers inner = .ok ms) ↔
      Balanced inner.toList ∧ ∀ segs, TopSplit inner.toList segs → ∀ seg ∈ segs, trimChars seg ≠ [] := by
  constructor
  · rintro ⟨ms, h⟩
    obtain ⟨segs, hsegs, hne, -⟩ := splitMembers_eq_ok_iff.1 h
    refine ⟨?_, fun segs' hsegs' => ?_⟩
    · have hd := depthAfter_of_splitMembersAux h
      exact ⟨fun p hp => by simpa using (depthAfter_eq_some_iff.1 hd).1 p hp,
        by simpa using (depthAfter_eq_some_iff.1 hd).2⟩
    · have hcut := @splitMembersAux_of_topSplit inner _ _ hsegs'
      unfold splitMembers at h
      split at hcut
      · assumption
      · rw [hcut] at h
        cases h
  · rintro ⟨hb, hne⟩
    obtain ⟨segs, hsegs⟩ := exists_topSplit hb
    exact ⟨_, splitMembers_eq_ok_iff.2 ⟨segs, hsegs, hne segs hsegs, rfl⟩⟩

/-! ## The grammar -/

theorem parse_eq_ok_iff_peeled {s : String} {f : TypeForm} :
    parse s = .ok f ↔ ∃ x, Peeled s.toList x ∧ x ≠ [] ∧ ReadsAs x f := by
  rw [parse_eq_ok_iff]
  constructor
  · rintro ⟨hne, hf⟩
    exact ⟨_, peeled_stripOptionalChars _, hne, hf⟩
  · rintro ⟨x, hx, hne, hf⟩
    rw [peeled_iff.1 hx]
    exact ⟨hne, hf⟩

/-- Reading type expressions follows their grammar, and a member list cuts exactly when its
brackets balance and no member is blank. -/
theorem type_expressions_follow_grammar :
    (∀ (s : String) (f : TypeForm),
      parse s = .ok f ↔ ∃ x, Peeled s.toList x ∧ x ≠ [] ∧ ReadsAs x f) ∧
    (∀ s : String,
      (∃ e, parse s = .error e) ↔ ¬ ∃ x f, Peeled s.toList x ∧ x ≠ [] ∧ ReadsAs x f) ∧
    (∀ inner : String, (∃ ms, splitMembers inner = .ok ms) ↔
      Balanced inner.toList ∧
        ∀ segs, TopSplit inner.toList segs → ∀ seg ∈ segs, trimChars seg ≠ []) ∧
    (∀ (inner : String) (ms : List String), splitMembers inner = .ok ms ↔
      ∃ segs, TopSplit inner.toList segs ∧ (∀ seg ∈ segs, trimChars seg ≠ []) ∧
        ms = segs.map fun seg => String.ofList (trimChars seg)) := by
  refine ⟨fun s f => parse_eq_ok_iff_peeled, fun s => ?_, fun inner => splitMembers_ok_iff,
    fun inner ms => splitMembers_eq_ok_iff⟩
  cases h : parse s with
  | error e =>
    refine ⟨fun _ => ?_, fun _ => ⟨e, rfl⟩⟩
    rintro ⟨x, f, hx⟩
    have := parse_eq_ok_iff_peeled.2 ⟨x, hx⟩
    rw [h] at this
    cases this
  | ok f =>
    constructor
    · rintro ⟨e, he⟩
      cases he
    · intro hnone
      obtain ⟨x, hx⟩ := parse_eq_ok_iff_peeled.1 h
      exact absurd ⟨x, f, hx⟩ hnone

end ContractAbi.TypeExpr
