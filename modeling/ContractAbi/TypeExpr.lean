import ContractAbi.Text.Blank
import ContractAbi.Primitive

/-!
# Type expressions

An ABI spells a type as text: a primitive keyword (`u64`, `utf-8 string`), a generic form
(`List<T>`, `variadic<T>`, `variadic<multi<A,B>>`, `multi<A,B>`, `tuple<A,B>`) or the name of
a declared type. `Option<T>` and `optional<T>` wrappers are dropped. Reading classifies the
outermost form only and hands back the unsplit inner text, so a reader of nested types
recurses on it.

A generic form is `Head<inner>`: the head is the text before the first `<`, trimmed and
non-empty, the text ends with `>`, and the angle brackets of the inner text balance without
ever closing more than they opened. Every failure quotes the text being read.

Main statement: a text read as a generic form is strictly longer than its inner text
(`splitGeneric_inner_length`), so recursion on inner texts ends, and the length of a text bounds
the number of optional wrappers it has (`stripOptionalChars_eq`).
-/

namespace ContractAbi

open Text

/-- A type expression that cannot be read, quoting the text at fault. -/
structure ExprError where
  text : String
  deriving DecidableEq, Repr

def ExprError.message (e : ExprError) : String :=
  "unrecognized type expression '" ++ e.text ++ "'"

inductive TypeForm where
  | primitive (p : Primitive)
  /-- `List<T>`, carrying `T`. -/
  | list (inner : String)
  /-- `variadic<T>` where `T` is no `multi<...>`, carrying `T`. -/
  | variadic (inner : String)
  /-- `variadic<multi<T1,...,Tn>>`, carrying `T1,...,Tn`. -/
  | multiVariadic (members : String)
  /-- `multi<T1,...,Tn>`, carrying `T1,...,Tn`. -/
  | multi (members : String)
  /-- `tuple<T1,...,Tn>`, carrying `T1,...,Tn`. -/
  | tuple (members : String)
  /-- A type name, looked up among the document's declared types. -/
  | named (name : String)
  deriving DecidableEq, Repr

namespace TypeExpr

/-- The bracket depth after a text, starting from `depth`; `none` once a `>` closes more
than was opened. -/
def depthAfter : Nat → List Char → Option Nat
  | d, [] => some d
  | d, c :: cs =>
    if c = '<' then depthAfter (d + 1) cs
    else if c = '>' then
      match d with
      | 0 => none
      | d + 1 => depthAfter d cs
    else depthAfter d cs

def balanced (cs : List Char) : Bool :=
  depthAfter 0 cs == some 0

/-- Splits `Head<inner>` into its trimmed head and untrimmed inner text. `none` means the text
has no `<` and no `>`: it is no generic form at all. -/
def splitGeneric (e : List Char) : Except ExprError (Option (List Char × List Char)) :=
  let err := ExprError.mk (String.ofList e)
  match e.dropWhile (· ≠ '<') with
  | [] => if e.contains '>' then .error err else .ok none
  | _ :: after =>
    if e.getLast? ≠ some '>' then .error err
    else
      let head := trimChars (e.takeWhile (· ≠ '<'))
      let inner := after.dropLast
      if balanced inner && !head.isEmpty then .ok (some (head, inner)) else .error err

theorem splitGeneric_inner_length {e head inner : List Char}
    (h : splitGeneric e = .ok (some (head, inner))) : inner.length < e.length := by
  unfold splitGeneric at h
  split at h
  · split at h <;> simp at h
  · rename_i x after hd
    have hsuf : (x :: after).length ≤ e.length := by
      rw [← hd]; exact (List.dropWhile_suffix _).length_le
    split at h
    · simp at h
    · simp only at h
      split at h
      · simp only [Except.ok.injEq, Option.some.injEq, Prod.mk.injEq] at h
        obtain ⟨-, rfl⟩ := h
        simp only [List.length_dropLast, List.length_cons] at hsuf ⊢
        omega
      · simp at h

/-- The wrappers that mark a value as optional; absence is not modelled, so they are dropped. -/
def optionalWrappers : List (List Char) := ["Option".toList, "optional".toList]

/-- Drops at most `fuel` `Option<...>` and `optional<...>` wrappers, trimming as it goes. -/
def stripOptionalFuel : Nat → List Char → List Char
  | 0, e => trimChars e
  | fuel + 1, e =>
    match splitGeneric (trimChars e) with
    | .ok (some (head, inner)) =>
      if optionalWrappers.contains head then stripOptionalFuel fuel inner else trimChars e
    | _ => trimChars e

/-- Drops any number of `Option<...>` and `optional<...>` wrappers, trimming as it goes. Each
wrapper shortens the text, so the text's length bounds their number (`stripOptionalChars_eq`). -/
def stripOptionalChars (e : List Char) : List Char :=
  stripOptionalFuel e.length e

theorem trimChars_length_le (e : List Char) : (trimChars e).length ≤ e.length := by
  unfold trimChars
  simp only [List.length_reverse]
  calc _ ≤ (List.dropWhile Text.isBlank e).reverse.length := (List.dropWhile_suffix _).length_le
    _ ≤ _ := by simpa using (List.dropWhile_suffix _).length_le

theorem stripOptionalFuel_of_le :
    ∀ {fuel fuel' : Nat} {e : List Char}, e.length ≤ fuel → e.length ≤ fuel' →
      stripOptionalFuel fuel e = stripOptionalFuel fuel' e
  | 0, 0, _, _, _ => rfl
  | 0, _ + 1, e, h, _ => by
    rw [List.eq_nil_of_length_eq_zero (Nat.le_zero.1 h)]
    rfl
  | _ + 1, 0, e, _, h => by
    rw [List.eq_nil_of_length_eq_zero (Nat.le_zero.1 h)]
    rfl
  | fuel + 1, fuel' + 1, e, h, h' => by
    simp only [stripOptionalFuel]
    split
    · rename_i head inner hsplit
      have hlt := splitGeneric_inner_length hsplit
      have hle := trimChars_length_le e
      split
      · exact stripOptionalFuel_of_le (by omega) (by omega)
      · rfl
    · rfl

/-- The wrappers are dropped one after the other until none is left. -/
theorem stripOptionalChars_eq (e : List Char) :
    stripOptionalChars e =
      match splitGeneric (trimChars e) with
      | .ok (some (head, inner)) =>
        if optionalWrappers.contains head then stripOptionalChars inner else trimChars e
      | _ => trimChars e := by
  unfold stripOptionalChars
  cases hlen : e.length with
  | zero =>
    rw [List.eq_nil_of_length_eq_zero hlen]
    rfl
  | succ n =>
    simp only [stripOptionalFuel]
    split
    · rename_i head inner hsplit
      have hlt := splitGeneric_inner_length hsplit
      have hle := trimChars_length_le e
      split
      · exact stripOptionalFuel_of_le (by omega) (Nat.le_refl _)
      · rfl
    · rfl

/-- A text without its optional wrappers and surrounding blanks. -/
def stripOptional (e : String) : String :=
  String.ofList (stripOptionalChars e.toList)

/-- A type name starts with an ASCII letter or underscore and goes on with ASCII letters,
digits and underscores. -/
def isTypeName : List Char → Bool
  | [] => false
  | c :: cs => (c.isAlpha || c == '_') && cs.all (fun d => d.isAlphanum || d == '_')

def parse (expr : String) : Except ExprError TypeForm := do
  let e := stripOptionalChars expr.toList
  let err := ExprError.mk (String.ofList e)
  if e.isEmpty then throw err
  match Primitive.ofKeyword? (String.ofList e) with
  | some p => return .primitive p
  | none =>
    match ← splitGeneric e with
    | some (head, inner) =>
      let innerText := String.ofList inner
      if head == "List".toList then return .list innerText
      else if head == "variadic".toList then
        match ← splitGeneric (trimChars inner) with
        | some (h, members) =>
          if h == "multi".toList then return .multiVariadic (String.ofList members)
          else return .variadic innerText
        | none => return .variadic innerText
      else if head == "multi".toList then return .multi innerText
      else if head == "tuple".toList then return .tuple innerText
      else throw err
    | none => if isTypeName e then return .named (String.ofList e) else throw err

/-- Cuts a generic argument list at its top-level commas; `start` is the member read so far,
reversed. Every member is trimmed and must not be empty; `whole` is quoted on failure. -/
def splitMembersAux (whole : String) : Nat → List Char → List Char →
    Except ExprError (List String)
  | d, member, [] =>
    if d ≠ 0 then .error ⟨whole⟩
    else
      let m := trimChars member.reverse
      if m.isEmpty then .error ⟨whole⟩ else .ok [String.ofList m]
  | d, member, c :: cs =>
    if c = '<' then splitMembersAux whole (d + 1) (c :: member) cs
    else if c = '>' then
      match d with
      | 0 => .error ⟨whole⟩
      | d + 1 => splitMembersAux whole d (c :: member) cs
    else if c = ',' ∧ d = 0 then
      let m := trimChars member.reverse
      if m.isEmpty then .error ⟨whole⟩
      else (splitMembersAux whole 0 [] cs).map (String.ofList m :: ·)
    else splitMembersAux whole d (c :: member) cs

/-- Splits a generic argument list on its top-level commas only: `u32,tuple<u8,u16>,Address`
has three members. Empty members and unbalanced brackets are refused. -/
def splitMembers (inner : String) : Except ExprError (List String) :=
  splitMembersAux inner 0 [] inner.toList

end TypeExpr

end ContractAbi
