import ContractAbi.Proofs.ForwardReaders

/-!
# Readings that do not run out of fuel

Nested reading descends with fuel: one unit for each record, tuple or list it enters. Where the
fuel runs out it answers `unbounded`. Any other answer is settled: the reading ended within its
fuel, and the answer is the one a reader without a bound gives.

This module proves two kinds of fact.

* Settling is kept by the reader combinators: a read after a read, a count-prefixed list, the
  fields of a record. Settling is counted in bytes given (`Reader.SettlesWithin`), since bytes
  are what a list count spends. Every scalar read settles, having no fuel to run out of.
* More fuel never changes a settled answer (`Reader.Extends`): the fuel only cuts a reading off,
  it never steers one.

Main statement: `nestedValue_extends`.
-/

namespace ContractAbi

namespace Wire

/-! ## Settled answers -/

/-- An answer that is not a reading cut off for lack of fuel. -/
def Settled {α : Type} (x : Except WireError α) : Prop :=
  ∀ shape, x ≠ .error (.unbounded shape)

section Settled

variable {α β : Type}

@[simp] theorem settled_ok (a : α) : Settled (.ok a : Except WireError α) := by
  intro shape h
  cases h

@[simp] theorem settled_error {e : WireError} :
    Settled (.error e : Except WireError α) ↔ ∀ shape, e ≠ .unbounded shape := by
  simp [Settled]

@[simp] theorem settled_map {f : α → β} {x : Except WireError α} :
    Settled (x.map f) ↔ Settled x := by
  cases x <;> simp [Except.map]

theorem Settled.bind {x : Except WireError α} {f : α → Except WireError β} (hx : Settled x)
    (hf : ∀ a, Settled (f a)) : Settled (x >>= f) := by
  cases x with
  | error e => exact settled_error.2 (settled_error.1 hx)
  | ok a => exact hf a

end Settled

/-- A reader that never runs out of fuel on at most `length` bytes. -/
def Reader.SettlesWithin {α : Type} (r : Reader α) (length : Nat) : Prop :=
  ∀ bs, bs.length ≤ length → Settled (r bs)

namespace Reader.SettlesWithin

variable {α β : Type} {L : Nat}

theorem of_settled {r : Reader α} (h : ∀ bs, Settled (r bs)) : r.SettlesWithin L :=
  fun bs _ => h bs

theorem pure (a : α) : (Reader.pure a).SettlesWithin L :=
  of_settled fun _ => settled_ok _

theorem fail {e : WireError} (h : ∀ shape, e ≠ .unbounded shape) :
    (Reader.fail e : Reader α).SettlesWithin L :=
  of_settled fun _ => settled_error.2 h

/-- A read after a read settles: the second is handed what the first leaves, which is no
longer than what the first was given. -/
theorem bind {r : Reader α} {f : α → Reader β} (hr : r.SettlesWithin L) (hfwd : r.Forward)
    (hf : ∀ a, (f a).SettlesWithin L) : (r.bind f).SettlesWithin L := by
  intro bs hbs
  unfold Reader.bind
  split
  · rename_i a rest hrest
    exact hf a rest (Nat.le_trans (hfwd bs a rest hrest).length_le hbs)
  · rename_i e he
    simpa [he] using hr bs hbs

theorem map {r : Reader α} (f : α → β) (hr : r.SettlesWithin L) : (r.map f).SettlesWithin L := by
  intro bs hbs
  unfold Reader.map
  split
  · exact settled_ok _
  · rename_i e he
    simpa [he] using hr bs hbs

end Reader.SettlesWithin

/-! ## Reads with no fuel settle -/

section Scalars

open Reader.SettlesWithin

variable {L : Nat}

theorem take_settles (n : Nat) : (take n).SettlesWithin L := by
  refine of_settled fun bs => ?_
  unfold take
  split <;> simp

theorem readFixed_settles (w : Nat) : (readFixed w).SettlesWithin L :=
  map _ (take_settles w)

/-- A fixed-width read leaves the bytes after its width. -/
theorem length_of_readFixed {w n : Nat} {bs rest : List UInt8}
    (h : readFixed w bs = .ok (n, rest)) : rest.length + w = bs.length := by
  unfold readFixed Reader.map at h
  split at h
  · rename_i v rest' hv
    cases h
    obtain ⟨happ, hlen⟩ := take_length hv
    rw [← happ, List.length_append, hlen, Nat.add_comm]
  · cases h

theorem readBool_settles : readBool.SettlesWithin L := by
  intro bs hbs
  unfold readBool
  split
  · split
    · simp
    · split <;> simp
  · simp
  · rename_i e he
    simpa [he] using take_settles 1 bs hbs

theorem readBytes_settles : readBytes.SettlesWithin L :=
  bind (readFixed_settles 4) (readFixed_forward 4) take_settles

theorem readString_settles : readString.SettlesWithin L := by
  refine bind readBytes_settles readBytes_forward fun bytes => of_settled fun bs => ?_
  split <;> simp

theorem nestedPrimitive_settles (p : Primitive) : (nestedPrimitive p).SettlesWithin L := by
  cases p with
  | bool => exact map _ readBool_settles
  | u8 | u16 | u32 | u64 => exact map _ (readFixed_settles _)
  | bigUint | bigInt => exact map _ (map _ readBytes_settles)
  | bytes => exact map _ readBytes_settles
  | utf8String | tokenIdentifier | egldOrEsdtTokenIdentifier => exact map _ readString_settles
  | address => exact map _ (take_settles _)

theorem topUnsigned_settled (w : Nat) (t : String) (slot : List UInt8) :
    Settled (topUnsigned w t slot) := by
  unfold topUnsigned
  dsimp only
  split <;> simp

theorem topString_settled (slot : List UInt8) : Settled (topString slot) := by
  unfold topString
  split <;> simp

theorem topAddress_settled (slot : List UInt8) : Settled (topAddress slot) := by
  unfold topAddress
  split <;> simp

theorem topPrimitive_settled (p : Primitive) (slot : List UInt8) :
    Settled (topPrimitive p slot) := by
  cases p with
  | bool | bigUint | bigInt | bytes => exact settled_ok _
  | u8 | u16 | u32 | u64 => exact settled_map.2 (settled_map.2 (topUnsigned_settled _ _ slot))
  | utf8String | tokenIdentifier | egldOrEsdtTokenIdentifier =>
    exact settled_map.2 (topString_settled slot)
  | address => exact settled_map.2 (topAddress_settled slot)

theorem enumValue_settled (c : Catalog) (n : String) (d : Nat) : Settled (enumValue c n d) := by
  unfold enumValue
  split
  · simp
  · split <;> simp

end Scalars

/-! ## Composite reads settle when their parts do -/

section Composites

open Reader.SettlesWithin

variable {α : Type} {L : Nat}

theorem readMany_settles {item : Reader α} (hi : item.SettlesWithin L) (hfwd : item.Forward) :
    ∀ n, (readMany item n).SettlesWithin L
  | 0 => pure _
  | n + 1 => bind hi hfwd fun _ => map _ (readMany_settles hi hfwd n)

/-- A list spends its four-byte count before any item, so its items need to settle only on what
is left after the count. -/
theorem readList_settles {item : Reader α} (hfwd : item.Forward)
    (hi : 4 ≤ L → item.SettlesWithin (L - 4)) : (readList item).SettlesWithin L := by
  intro bs hbs
  unfold readList Reader.bind
  split
  · rename_i count rest hcount
    have hlen := length_of_readFixed hcount
    exact readMany_settles (hi (by omega)) hfwd count rest (by omega)
  · rename_i e he
    have hcount : Settled (readLength bs) := readFixed_settles 4 bs hbs
    simpa [he] using hcount

/-- Named items read in order settle when each of them moves forward and settles. -/
theorem readNamed_settles {items : List (String × Reader Value)}
    (h : ∀ it ∈ items, it.2.Forward ∧ it.2.SettlesWithin L) : (readNamed items).SettlesWithin L :=
  (readNamed_induction (fun r => r.Forward ∧ r.SettlesWithin L)
    (fun r => r.Forward ∧ r.SettlesWithin L) ⟨Reader.Forward.pure _, pure _⟩
    (fun _ _ _ hacc hr => ⟨Reader.Forward.bind hacc.1 fun _ => Reader.Forward.map _ hr.1,
      bind hacc.2 hacc.1 fun _ => map _ hr.2⟩) h).2

end Composites

/-! ## More fuel changes nothing settled -/

/-- `r'` answers as `r` wherever the answer of `r` is settled. -/
def Reader.Extends {α : Type} (r' r : Reader α) : Prop :=
  ∀ bs, Settled (r bs) → r' bs = r bs

namespace Reader.Extends

variable {α β : Type}

theorem refl (r : Reader α) : r.Extends r :=
  fun _ _ => rfl

/-- A settled read after a read was settled in both parts, so both parts answer alike. -/
theorem bind {r r' : Reader α} {f f' : α → Reader β} (hr : r'.Extends r)
    (hf : ∀ a, (f' a).Extends (f a)) : (r'.bind f').Extends (r.bind f) := by
  intro bs hs
  unfold Reader.bind at hs ⊢
  cases hrb : r bs with
  | error e =>
    have hfirst : Settled (r bs) := by simpa [hrb] using hs
    simp only [hr bs hfirst, hrb]
  | ok p =>
    obtain ⟨a, rest⟩ := p
    simp only [hr bs (by simp [hrb]), hrb] at hs ⊢
    exact hf a rest hs

theorem map {r r' : Reader α} (f : α → β) (hr : r'.Extends r) : (r'.map f).Extends (r.map f) := by
  intro bs hs
  unfold Reader.map at hs ⊢
  have hfirst : Settled (r bs) := by
    cases hrb : r bs with
    | error e => simpa [hrb] using hs
    | ok p => simp
  rw [hr bs hfirst]

theorem readMany {item item' : Reader α} (h : item'.Extends item) :
    ∀ n, (Wire.readMany item' n).Extends (Wire.readMany item n)
  | 0 => refl _
  | n + 1 => bind h fun _ => map _ (readMany h n)

theorem readList {item item' : Reader α} (h : item'.Extends item) :
    (Wire.readList item').Extends (Wire.readList item) :=
  bind (refl _) (readMany h)

/-- Named reads extend each other when their items do, name by name. -/
theorem readNamed {items items' : List (String × Reader Value)}
    (h : List.Forall₂ (fun it it' => it'.1 = it.1 ∧ it'.2.Extends it.2) items items') :
    (Wire.readNamed items').Extends (Wire.readNamed items) := by
  unfold Wire.readNamed
  suffices ∀ acc acc' : Reader (List (String × Value)), acc'.Extends acc →
      (items'.foldl (fun acc it =>
        Reader.bind acc fun fs => Reader.map (fun v => OrderedMap.insert fs it.1 v) it.2) acc').Extends
      (items.foldl (fun acc it =>
        Reader.bind acc fun fs => Reader.map (fun v => OrderedMap.insert fs it.1 v) it.2) acc) from
    this _ _ (refl _)
  induction h with
  | nil => exact fun _ _ hacc => hacc
  | cons hhead _ ih =>
    intro acc acc' hacc
    refine ih _ _ (bind hacc fun fs => ?_)
    rw [hhead.1]
    exact map _ hhead.2

/-- The named reads of one list, built item by item, extend each other when every item's reads
do under the same name. -/
theorem readNamed_map {γ : Type} {l : List γ} {g g' : γ → String × Reader Value}
    (h : ∀ x ∈ l, (g' x).1 = (g x).1 ∧ (g' x).2.Extends (g x).2) :
    (Wire.readNamed (l.map g')).Extends (Wire.readNamed (l.map g)) :=
  readNamed (List.forall₂_map_left_iff.2 (List.forall₂_map_right_iff.2 (List.forall₂_same.2 h)))

end Reader.Extends

section Fuel

open Reader.Extends

variable (c : Catalog)

/-- One level of nested reading extends another when the levels below do. -/
theorem nestedValue_succ_extends {n m : Nat}
    (h : ∀ ty, (nestedValue c m ty).Extends (nestedValue c n ty)) (ty : ResolvedType) :
    (nestedValue c (m + 1) ty).Extends (nestedValue c (n + 1) ty) := by
  cases ty with
  | record name =>
    simp only [nestedValue]
    split
    · exact refl _
    · exact map _ (readNamed_map fun f _ => ⟨rfl, h f.type⟩)
  | tuple name ms =>
    refine map _ (readNamed_map fun p _ => ?_)
    obtain ⟨k, m⟩ := p
    exact ⟨rfl, h m⟩
  | list i => exact map _ (Reader.Extends.readList (h i))
  | primitive | enum | variadic | multiVariadic | multi => exact refl _

/-- More fuel never changes a settled nested reading: the fuel only cuts a reading off. -/
theorem nestedValue_extends : ∀ {n m : Nat}, n ≤ m → ∀ ty : ResolvedType,
    (nestedValue c m ty).Extends (nestedValue c n ty)
  | 0, _, _, ty => fun _ hs => absurd rfl (hs ty.display)
  | n + 1, 0, h, _ => absurd h (Nat.not_succ_le_zero n)
  | _ + 1, _ + 1, h, ty =>
    nestedValue_succ_extends c (nestedValue_extends (Nat.le_of_succ_le_succ h)) ty

end Fuel

end Wire

end ContractAbi
