import Mathlib.Logic.Relation
import ContractAbi.Wire.Outputs
import ContractAbi.Proofs.ByteRoundTrip
import ContractAbi.Proofs.Catalog
import ContractAbi.Proofs.Decoding

/-!
# Nested decoding inverts the nested encoding

`Encodes c t v bs` says that `bs` is the nested encoding of the value `v` at type `t`: a
boolean is one byte `00`/`01`, `u8` to `u64` are 1, 2, 4 and 8 bytes big-endian, big integers,
bytes and text are a four-byte big-endian length followed by their minimal big-endian, two's
complement or UTF-8 bytes, an address is 32 raw bytes, an enum is its discriminant byte, a
record or tuple is its fields one after the other, and a list is a four-byte count followed by
its elements.

Every such encoding reads back: `nested` returns `v` and exactly the bytes after the encoding,
whenever the catalog's enums have distinct one-byte discriminants and its records distinct field
names. The fuel `nested` gives itself always suffices: along any path into a value, a record
recurs only after a list, and each list takes a count of four bytes (`Encodes.depth_le`).

Main statements: `nested_of_encodes` for any such catalog, and `nested_decodes_encoding` for the
catalog of a successful declaration of a document's types.
-/

namespace ContractAbi

namespace Primitive

/-- The width in bytes of an unsigned integer kind. -/
def unsignedWidth? : Primitive → Option Nat
  | .u8 => some 1
  | .u16 => some 2
  | .u32 => some 4
  | .u64 => some 8
  | _ => none

/-- The kinds that travel as length-prefixed UTF-8 text. -/
def isText : Primitive → Bool
  | .utf8String | .tokenIdentifier | .egldOrEsdtTokenIdentifier => true
  | _ => false

end Primitive

namespace Value

mutual

/-- How deep a value nests: one for a leaf. -/
def depth : Value → Nat
  | .record _ fs => fieldsDepth fs + 1
  | .list xs => elementsDepth xs + 1
  | _ => 1

/-- The greatest depth of a field's value. -/
def fieldsDepth : List (String × Value) → Nat
  | [] => 0
  | (_, v) :: rest => max v.depth (fieldsDepth rest)

/-- The greatest depth of an element. -/
def elementsDepth : List Value → Nat
  | [] => 0
  | v :: rest => max v.depth (elementsDepth rest)

end

theorem fieldsDepth_le_iff {d : Nat} : ∀ {fs : List (String × Value)},
    fieldsDepth fs ≤ d ↔ ∀ p ∈ fs, p.2.depth ≤ d
  | [] => by simp [fieldsDepth]
  | (n, v) :: rest => by simp [fieldsDepth, fieldsDepth_le_iff]

theorem elementsDepth_le_iff {d : Nat} : ∀ {xs : List Value},
    elementsDepth xs ≤ d ↔ ∀ x ∈ xs, x.depth ≤ d
  | [] => by simp [elementsDepth]
  | v :: rest => by simp [elementsDepth, elementsDepth_le_iff]

theorem fieldsDepth_map_le {β : Type} (g : β → String × Value) {l : List β} {d : Nat}
    (h : ∀ q ∈ l, (g q).2.depth ≤ d) : fieldsDepth (l.map g) ≤ d :=
  fieldsDepth_le_iff.2 fun p hp => by
    obtain ⟨q, hq, hqp⟩ := List.mem_map.1 hp
    exact hqp ▸ h q hq

theorem elementsDepth_map_le {β : Type} (g : β → Value) {l : List β} {d : Nat}
    (h : ∀ q ∈ l, (g q).depth ≤ d) : elementsDepth (l.map g) ≤ d :=
  elementsDepth_le_iff.2 fun x hx => by
    obtain ⟨q, hq, hqx⟩ := List.mem_map.1 hx
    exact hqx ▸ h q hq

end Value

namespace Wire

open Text

/-- A length or count in four big-endian bytes, then the bytes. -/
def lengthPrefixed (bs : List UInt8) : List UInt8 :=
  bytesOfNatFixed 4 bs.length ++ bs

/-- `bs` is the nested encoding of `v` at type `t`. Records take their fields from the catalog;
tuples carry their members. -/
inductive Encodes (c : Catalog) : ResolvedType → Value → List UInt8 → Prop where
  | bool (b : Bool) : Encodes c (.primitive .bool) (.bool b) [if b then 1 else 0]
  | unsigned {p : Primitive} {w : Nat} (n : Nat) (hw : p.unsignedWidth? = some w)
      (hn : n < 256 ^ w) : Encodes c (.primitive p) (.unsigned n) (bytesOfNatFixed w n)
  | bigUint (n : Nat) (hl : (bytesOfNat n).length < 2 ^ 32) :
      Encodes c (.primitive .bigUint) (.bigInteger n) (lengthPrefixed (bytesOfNat n))
  | bigInt (i : Int) (hl : (bytesOfInt i).length < 2 ^ 32) :
      Encodes c (.primitive .bigInt) (.bigInteger i) (lengthPrefixed (bytesOfInt i))
  | bytes (bs : List UInt8) (hl : bs.length < 2 ^ 32) :
      Encodes c (.primitive .bytes) (.bytes bs) (lengthPrefixed bs)
  | text {p : Primitive} (s : String) (hp : p.isText = true) (hl : (encodeUtf8 s).length < 2 ^ 32) :
      Encodes c (.primitive p) (.text s) (lengthPrefixed (encodeUtf8 s))
  | address (bs : List UInt8) (hl : bs.length = addressLength) :
      Encodes c (.primitive .address) (.address bs) bs
  | enum {n : String} {vs : List Variant} (v : Variant) (hvs : c.enums.get? n = some vs)
      (hv : v ∈ vs) : Encodes c (.enum n) (.enum n v.name v.discriminant) [v.discriminant.toUInt8]
  | record {n : String} {fs : List Field} (parts : List (Field × Value × List UInt8))
      (hfs : c.records.get? n = some fs) (hparts : parts.map (·.1) = fs)
      (hall : ∀ q ∈ parts, Encodes c q.1.type q.2.1 q.2.2) :
      Encodes c (.record n) (.record n (parts.map fun q => (q.1.name, q.2.1))) (parts.flatMap (·.2.2))
  | tuple (n : String) (parts : List (ResolvedType × Value × List UInt8))
      (hall : ∀ q ∈ parts, Encodes c q.1 q.2.1 q.2.2) :
      Encodes c (.tuple n (parts.map (·.1))) (.record n (numbered (parts.map (·.2.1))))
        (parts.flatMap (·.2.2))
  | list {i : ResolvedType} (parts : List (Value × List UInt8)) (hl : parts.length < 2 ^ 32)
      (hall : ∀ q ∈ parts, Encodes c i q.1 q.2) :
      Encodes c (.list i) (.list (parts.map (·.1)))
        (bytesOfNatFixed 4 parts.length ++ parts.flatMap (·.2))

/-- The enums' discriminants fit in one byte and each names one variant. -/
def VariantsValid (enums : OrderedMap (List Variant)) : Prop :=
  ∀ e ∈ enums, (e.2.map (·.discriminant)).Nodup ∧ ∀ v ∈ e.2, v.discriminant < 256

/-- Each record's fields have distinct names. -/
def FieldsDistinct (records : OrderedMap (List Field)) : Prop :=
  ∀ r ∈ records, (r.2.map (·.name)).Nodup

/-! ## Readers on exact bytes -/

/-- `r` reads `a` from exactly the bytes `bs`, whatever follows them. -/
def Reads {α : Type} (r : Reader α) (bs : List UInt8) (a : α) : Prop :=
  ∀ rest, r (bs ++ rest) = .ok (a, rest)

namespace Reads

variable {α β : Type} {r : Reader α} {bs bs' : List UInt8} {a : α}

theorem pure (a : α) : Reads (Reader.pure a) [] a := fun _ => rfl

theorem bind {f : α → Reader β} {b : β} (hr : Reads r bs a) (hf : Reads (f a) bs' b) :
    Reads (r.bind f) (bs ++ bs') b := by
  intro rest
  simp only [Reader.bind, List.append_assoc, hr (bs' ++ rest), hf rest]

theorem map (f : α → β) (hr : Reads r bs a) : Reads (r.map f) bs (f a) := by
  intro rest
  simp only [Reader.map, hr rest]

end Reads

theorem take_reads (bs : List UInt8) : Reads (take bs.length) bs bs := by
  intro rest
  simp [take]

theorem readFixed_reads (w n : Nat) : Reads (readFixed w) (bytesOfNatFixed w n) (n % 256 ^ w) := by
  have h := (take_reads (bytesOfNatFixed w n)).map natOfBytes
  rwa [length_bytesOfNatFixed, natOfBytes_bytesOfNatFixed] at h

theorem readLength_reads {n : Nat} (hn : n < 2 ^ 32) : Reads readLength (bytesOfNatFixed 4 n) n := by
  have h := readFixed_reads 4 n
  rwa [Nat.mod_eq_of_lt (by simpa using hn)] at h

theorem readBytes_reads {bs : List UInt8} (hl : bs.length < 2 ^ 32) :
    Reads readBytes (lengthPrefixed bs) bs :=
  (readLength_reads hl).bind (take_reads bs)

theorem readBool_reads (b : Bool) : Reads readBool [if b then 1 else 0] b := by
  intro rest
  cases b <;> simp [readBool, take]

theorem readString_reads {s : String} (hl : (encodeUtf8 s).length < 2 ^ 32) :
    Reads readString (lengthPrefixed (encodeUtf8 s)) s := by
  intro rest
  simp only [readString, Reader.bind, readBytes_reads hl rest, decodeUtf8_encodeUtf8]

/-- Items read one after the other read their encodings laid end to end. -/
theorem readMany_reads {α : Type} {item : Reader α} :
    ∀ {parts : List (α × List UInt8)}, (∀ q ∈ parts, Reads item q.2 q.1) →
      Reads (readMany item parts.length) (parts.flatMap (·.2)) (parts.map (·.1))
  | [], _ => Reads.pure []
  | q :: parts, h => by
    have hrest := readMany_reads fun q' hq' => h q' (List.mem_cons_of_mem q hq')
    exact (h q List.mem_cons_self).bind (hrest.map (q.1 :: ·))

theorem readList_reads {α : Type} {item : Reader α} {parts : List (α × List UInt8)}
    (hl : parts.length < 2 ^ 32) (h : ∀ q ∈ parts, Reads item q.2 q.1) :
    Reads (readList item) (bytesOfNatFixed 4 parts.length ++ parts.flatMap (·.2)) (parts.map (·.1)) :=
  (readLength_reads hl).bind (readMany_reads h)

theorem readNamed_snoc (items : List (String × Reader Value)) (n : String) (r : Reader Value) :
    readNamed (items ++ [(n, r)]) =
      (readNamed items).bind fun fs => r.map fun v => OrderedMap.insert fs n v := by
  simp only [readNamed, List.foldl_append, List.foldl_cons, List.foldl_nil]

/-- Named readers under distinct names read their encodings laid end to end into a record whose
fields are in order: no later field replaces an earlier one. -/
theorem readNamed_reads {β : Type} (name : β → String) (reader : β → Reader Value)
    (value : β → Value) (bytes : β → List UInt8) (qs : List β) (hnames : (qs.map name).Nodup)
    (h : ∀ q ∈ qs, Reads (reader q) (bytes q) (value q)) :
    Reads (readNamed (qs.map fun q => (name q, reader q))) (qs.flatMap bytes)
      (qs.map fun q => (name q, value q)) := by
  induction qs using List.reverseRecOn with
  | nil => exact Reads.pure []
  | append_singleton qs q ih =>
    rw [List.map_append, List.nodup_append] at hnames
    have hprefix := ih hnames.1 fun q' hq' => h q' (List.mem_append_left _ hq')
    have hnew : OrderedMap.contains (qs.map fun q => (name q, value q)) (name q) = false := by
      rw [Bool.eq_false_iff, Ne, OrderedMap.contains_iff]
      simp only [OrderedMap.keys, List.map_map]
      exact fun hq => hnames.2.2 _ hq _ (List.mem_singleton_self _) rfl
    have hlast := (h q (List.mem_append_right _ (List.mem_singleton_self q))).map
      fun v => OrderedMap.insert (qs.map fun q => (name q, value q)) (name q) v
    rw [OrderedMap.insert_of_not_contains hnew] at hlast
    rw [List.map_append, List.map_singleton, readNamed_snoc, List.flatMap_append,
      List.flatMap_singleton, List.map_append, List.map_singleton]
    exact hprefix.bind hlast

/-! ## Reading with enough fuel -/

theorem enumValue_of_mem {c : Catalog} {n : String} {vs : List Variant} {v : Variant}
    (hvs : c.enums.get? n = some vs) (hnd : (vs.map (·.discriminant)).Nodup) (hv : v ∈ vs) :
    enumValue c n v.discriminant = .ok (.enum n v.name v.discriminant) := by
  obtain ⟨w, hw⟩ := Option.isSome_iff_exists.1
    (List.find?_isSome.2 ⟨v, hv, by simp⟩ : (vs.find? (·.discriminant == v.discriminant)).isSome)
  have hwv : w = v := List.inj_on_of_nodup_map hnd (List.mem_of_find?_eq_some hw) hv
    (by simpa using List.find?_some hw)
  subst hwv
  simp [enumValue, hvs, hw]

theorem map_snd_numbered {α : Type} (xs : List α) : (numbered xs).map Prod.snd = xs := by
  simp only [numbered, List.map_map, Function.comp_def]
  exact List.map_snd_zip (by simp)

theorem numbered_map_eq {α β : Type} (f : α → β) (xs : List α) :
    numbered (xs.map f) = (numbered xs).map fun p => (p.1, f p.2) := by
  simp [numbered, List.zip_map_right, List.map_map, Function.comp_def]

/-- The members' names `var0`, `var1`, … are distinct. -/
theorem numbered_names_nodup {α : Type} (xs : List α) : ((numbered xs).map Prod.fst).Nodup := by
  have hfst : ((List.range xs.length).zip xs).map Prod.fst = List.range xs.length :=
    List.map_fst_zip (by simp)
  simp only [numbered, List.map_map, Function.comp_def]
  rw [show (fun p : Nat × α => "var" ++ toString p.1) = (fun i : Nat => "var" ++ toString i) ∘ Prod.fst
    from rfl, ← List.map_map, hfst]
  exact List.nodup_range.map (append_toString_injective "var")

/-- Members read under their numbered names read their encodings laid end to end. -/
theorem readNamed_numbered_reads {β : Type} (reader : β → Reader Value) (value : β → Value)
    (bytes : β → List UInt8) (parts : List β) (h : ∀ q ∈ parts, Reads (reader q) (bytes q) (value q)) :
    Reads (readNamed ((numbered parts).map fun p => (p.1, reader p.2))) (parts.flatMap bytes)
      (numbered (parts.map value)) := by
  have hreads := readNamed_reads Prod.fst (fun p => reader p.2) (fun p => value p.2)
    (fun p => bytes p.2) (numbered parts) (numbered_names_nodup parts)
    fun p hp => h p.2 (mem_numbered hp)
  have hbytes : (numbered parts).flatMap (fun p => bytes p.2) = parts.flatMap bytes := by
    rw [← List.flatMap_map Prod.snd bytes, map_snd_numbered]
  rwa [numbered_map_eq, ← hbytes]

section Reading

variable {c : Catalog} (hv : VariantsValid c.enums) (hf : FieldsDistinct c.records)
include hv hf

/-- An encoding reads back once the fuel reaches the value's depth. -/
theorem Encodes.reads {t : ResolvedType} {v : Value} {bs : List UInt8} (h : Encodes c t v bs) :
    ∀ fuel, v.depth ≤ fuel → Reads (nestedValue c fuel t) bs v := by
  induction h with
  | bool b =>
    rintro (_ | fuel) hd
    · simp [Value.depth] at hd
    · exact (readBool_reads b).map Value.bool
  | unsigned n hw hn =>
    rename_i p w
    rintro (_ | fuel) hd
    · simp [Value.depth] at hd
    · have h := (readFixed_reads w n).map Value.unsigned
      rw [Nat.mod_eq_of_lt hn] at h
      cases p <;> simp only [Primitive.unsignedWidth?, reduceCtorEq, Option.some.injEq] at hw <;>
        subst hw <;> exact h
  | bigUint n hl =>
    rintro (_ | fuel) hd
    · simp [Value.depth] at hd
    · have h := ((readBytes_reads hl).map natOfBytes).map fun n : Nat => Value.bigInteger (Int.ofNat n)
      rwa [natOfBytes_bytesOfNat] at h
  | bigInt i hl =>
    rintro (_ | fuel) hd
    · simp [Value.depth] at hd
    · have h := ((readBytes_reads hl).map intOfBytes).map Value.bigInteger
      rwa [intOfBytes_bytesOfInt] at h
  | bytes bs hl =>
    rintro (_ | fuel) hd
    · simp [Value.depth] at hd
    · exact (readBytes_reads hl).map Value.bytes
  | text s hp hl =>
    rename_i p
    rintro (_ | fuel) hd
    · simp [Value.depth] at hd
    · cases p <;> simp only [Primitive.isText, Bool.false_eq_true] at hp <;>
        exact (readString_reads hl).map Value.text
  | address bs hl =>
    rintro (_ | fuel) hd
    · simp [Value.depth] at hd
    · have h := (take_reads bs).map Value.address
      rw [hl] at h
      exact h
  | enum v hvs hmem =>
    rename_i n vs
    rintro (_ | fuel) hd
    · simp [Value.depth] at hd
    · obtain ⟨hnd, hbyte⟩ := hv _ (OrderedMap.mem_of_get? hvs)
      have hd₁ := readFixed_reads 1 v.discriminant
      rw [Nat.mod_eq_of_lt (by simpa using hbyte v hmem)] at hd₁
      have hvalue : Reads (fun bs => (enumValue c n v.discriminant).map (·, bs)) []
          (.enum n v.name v.discriminant) := by
        intro rest
        simp [enumValue_of_mem hvs hnd hmem, Except.map]
      have h := hd₁.bind (f := fun d bs => (enumValue c n d).map (·, bs)) hvalue
      rwa [List.append_nil, show bytesOfNatFixed 1 v.discriminant = [v.discriminant.toUInt8] by
        simp [bytesOfNatFixed, Nat.toUInt8, Nat.mod_eq_of_lt (hbyte v hmem)]] at h
  | record parts hfs hparts hall ih =>
    rename_i n fs
    rintro (_ | fuel) hd
    · simp [Value.depth] at hd
    · simp only [Value.depth, Nat.add_le_add_iff_right, Value.fieldsDepth_le_iff, List.mem_map] at hd
      subst hparts
      have hnames : (parts.map fun q => q.1.name).Nodup := by
        simpa [List.map_map, Function.comp_def] using hf _ (OrderedMap.mem_of_get? hfs)
      have h := (readNamed_reads (fun q => q.1.name) (fun q => nestedValue c fuel q.1.type)
        (fun q => q.2.1) (fun q => q.2.2) parts hnames
        fun q hq => ih q hq fuel (hd _ ⟨q, hq, rfl⟩)).map (Value.record n)
      simp only [nestedValue, hfs, List.map_map]
      exact h
  | tuple n parts hall ih =>
    rintro (_ | fuel) hd
    · simp [Value.depth] at hd
    · simp only [Value.depth, Nat.add_le_add_iff_right, Value.fieldsDepth_le_iff] at hd
      have hmember : ∀ q ∈ parts, q.2.1.depth ≤ fuel := by
        intro q hq
        obtain ⟨p, hp, rfl⟩ := List.mem_map.1 ((map_snd_numbered parts).symm ▸ hq)
        exact hd (p.1, p.2.2.1) (by rw [numbered_map_eq]; exact List.mem_map_of_mem hp)
      have h := readNamed_numbered_reads (fun q => nestedValue c fuel q.1) (·.2.1) (·.2.2) parts
        fun q hq => ih q hq fuel (hmember q hq)
      have hrecord := h.map (Value.record n)
      simp only [numbered_map_eq] at hrecord
      simp only [nestedValue, numbered_map_eq, List.map_map, Function.comp_def]
      exact hrecord
  | list parts hl hall ih =>
    rintro (_ | fuel) hd
    · simp [Value.depth] at hd
    · simp only [Value.depth, Nat.add_le_add_iff_right, Value.elementsDepth_le_iff, List.mem_map] at hd
      exact (readList_reads hl fun q hq => ih q hq fuel (hd _ ⟨q, hq, rfl⟩)).map Value.list

end Reading

/-! ## The fuel suffices -/

/-- One type sits inside another when its values are parts of every value of the other: fields
and tuple members, never list elements. -/
inductive Inside (c : Catalog) : ResolvedType → ResolvedType → Prop
  | field {n : String} {fs : List Field} {f : Field} (hfs : c.records.get? n = some fs)
      (hf : f ∈ fs) : Inside c (.record n) f.type
  | member {n : String} {ms : List ResolvedType} {m : ResolvedType} (hm : m ∈ ms) :
      Inside c (.tuple n ms) m

/-- A type with an encoding is not inside itself: its encoding would contain a smaller one of
the same type, and that another, without end. -/
theorem Encodes.acyclic {c : Catalog} {t : ResolvedType} {v : Value} {bs : List UInt8}
    (h : Encodes c t v bs) : ¬ Relation.TransGen (Inside c) t t := by
  induction h with
  | record parts hfs hparts hall ih =>
    intro hcyc
    obtain ⟨u, hstep, hback⟩ := Relation.TransGen.head'_iff.1 hcyc
    cases hstep with
    | field hfs' hf =>
      rw [hfs, Option.some.injEq] at hfs'
      subst hfs' hparts
      obtain ⟨q, hq, rfl⟩ := List.mem_map.1 hf
      exact ih q hq (Relation.TransGen.tail' hback (Inside.field hfs hf))
  | tuple n parts hall ih =>
    intro hcyc
    obtain ⟨u, hstep, hback⟩ := Relation.TransGen.head'_iff.1 hcyc
    cases hstep with
    | member hm =>
      obtain ⟨q, hq, rfl⟩ := List.mem_map.1 hm
      exact ih q hq (Relation.TransGen.tail' hback (Inside.member hm))
  | _ =>
    intro hcyc
    obtain ⟨u, hstep, -⟩ := Relation.TransGen.head'_iff.1 hcyc
    cases hstep

theorem le_foldl_max {β : Type} (g : β → Nat) : ∀ (l : List β) (init : Nat),
    init ≤ l.foldl (fun m y => max m (g y)) init ∧ ∀ y ∈ l, g y ≤ l.foldl (fun m y => max m (g y)) init
  | [], init => ⟨Nat.le_refl init, by simp⟩
  | y :: l, init => by
    obtain ⟨hinit, hall⟩ := le_foldl_max g l (max init (g y))
    refine ⟨by simp only [List.foldl_cons]; omega, fun z hz => ?_⟩
    rcases List.mem_cons.1 hz with rfl | hz
    · simp only [List.foldl_cons]
      omega
    · exact hall z hz

/-- A declared record's field types are no deeper than the catalog. -/
theorem depth_le_of_field {c : Catalog} {n : String} {fs : List Field} {f : Field}
    (hfs : c.records.get? n = some fs) (hf : f ∈ fs) : f.type.depth ≤ c.depth :=
  calc f.type.depth ≤ fs.foldl (fun m f => max m f.type.depth) 0 :=
      (le_foldl_max (fun f : Field => f.type.depth) fs 0).2 f hf
    _ ≤ c.depth := (le_foldl_max (fun e : String × List Field => e.2.foldl
        (fun m f => max m f.type.depth) 0) (c.records ++ c.composites) 0).2 (n, fs)
        (List.mem_append_left _ (OrderedMap.mem_of_get? hfs))

theorem depth_le_depthList {m : ResolvedType} :
    ∀ {ms : List ResolvedType}, m ∈ ms → m.depth ≤ ResolvedType.depthList ms
  | x :: xs, hm => by
    simp only [ResolvedType.depthList]
    rcases List.mem_cons.1 hm with rfl | hm
    · omega
    · have := depth_le_depthList hm
      omega

theorem length_le_flatMap {α β : Type} (f : α → List β) {q : α} :
    ∀ {l : List α}, q ∈ l → (f q).length ≤ (l.flatMap f).length
  | x :: l, hq => by
    rw [List.flatMap_cons, List.length_append]
    rcases List.mem_cons.1 hq with rfl | hq
    · omega
    · have := length_le_flatMap f hq
      omega

section Fuel

variable {c : Catalog} {D : Nat} (hK : c.depth ≤ D)
include hK

/-- Between two lists on a path into an encoded value each record is entered at most once, and
every other step lowers the depth. -/
theorem Encodes.depth_le {t : ResolvedType} {v : Value} {bs : List UInt8} (h : Encodes c t v bs) :
    ∀ V : List String, t.depth ≤ D → V.Nodup → (∀ r ∈ V, r ∈ c.records.keys) →
      (∀ r ∈ V, Relation.TransGen (Inside c) (.record r) t) →
      v.depth ≤ bs.length / 4 * ((c.records.length + 1) * (D + 1)) +
        (c.records.length - V.length) * (D + 1) + t.depth := by
  induction h with
  | record parts hfs hparts hall ih =>
    rename_i n fs
    intro V hD hV hVkeys hVin
    have hnew : n ∉ V := fun hn => (Encodes.record parts hfs hparts hall).acyclic (hVin n hn)
    have hkeys : ∀ r ∈ n :: V, r ∈ c.records.keys := by
      intro r hr
      rcases List.mem_cons.1 hr with rfl | hr
      · exact List.mem_map_of_mem (OrderedMap.mem_of_get? hfs)
      · exact hVkeys r hr
    have hroom : V.length + 1 ≤ c.records.length := by
      have := (List.nodup_cons.2 ⟨hnew, hV⟩).length_le_of_subset hkeys
      simpa [OrderedMap.keys] using this
    have hchild : ∀ q ∈ parts, q.2.1.depth ≤ (parts.flatMap (·.2.2)).length / 4 *
        ((c.records.length + 1) * (D + 1)) + (c.records.length - (V.length + 1)) * (D + 1) + D := by
      intro q hq
      have hf : q.1 ∈ fs := hparts ▸ List.mem_map_of_mem hq
      have hqD : q.1.type.depth ≤ D := Nat.le_trans (depth_le_of_field hfs hf) hK
      have hq' := ih q hq (n :: V) hqD (List.nodup_cons.2 ⟨hnew, hV⟩) hkeys
        (fun r hr => by
          rcases List.mem_cons.1 hr with rfl | hr
          · exact Relation.TransGen.single (Inside.field hfs hf)
          · exact (hVin r hr).tail (Inside.field hfs hf))
      have hbytes := Nat.mul_le_mul_right ((c.records.length + 1) * (D + 1))
        (Nat.div_le_div_right (c := 4) (length_le_flatMap (·.2.2) hq))
      simp only [List.length_cons] at hq'
      omega
    have hsplit : (c.records.length - V.length) * (D + 1) =
        (c.records.length - (V.length + 1)) * (D + 1) + (D + 1) := by
      rw [show c.records.length - V.length = c.records.length - (V.length + 1) + 1 by omega,
        Nat.succ_mul]
    have hfields :=
      Value.fieldsDepth_map_le (fun q : Field × Value × List UInt8 => (q.1.name, q.2.1)) hchild
    simp only [Value.depth, ResolvedType.depth]
    omega
  | tuple n parts hall ih =>
    intro V hD hV hVkeys hVin
    have hchild : ∀ p ∈ numbered parts, p.2.2.1.depth ≤ (parts.flatMap (·.2.2)).length / 4 *
        ((c.records.length + 1) * (D + 1)) + (c.records.length - V.length) * (D + 1) +
          ResolvedType.depthList (parts.map (·.1)) := by
      intro p hp
      have hq := mem_numbered hp
      have hm : p.2.1 ∈ parts.map (·.1) := List.mem_map_of_mem hq
      have hle := depth_le_depthList hm
      have htuple : (ResolvedType.tuple n (parts.map (·.1))).depth =
          ResolvedType.depthList (parts.map (·.1)) + 1 := by
        simp only [ResolvedType.depth]
      have hq' := ih p.2 hq V (by omega) hV hVkeys fun r hr => (hVin r hr).tail (Inside.member hm)
      have hbytes := Nat.mul_le_mul_right ((c.records.length + 1) * (D + 1))
        (Nat.div_le_div_right (c := 4) (length_le_flatMap (·.2.2) hq))
      omega
    have hfields := Value.fieldsDepth_map_le
      (fun p : String × ResolvedType × Value × List UInt8 => (p.1, p.2.2.1)) hchild
    simp only [numbered_map_eq, Value.depth, ResolvedType.depth] at hfields ⊢
    omega
  | list parts hl hall ih =>
    rename_i i
    intro V hD hV hVkeys hVin
    have hS : (c.records.length + 1) * (D + 1) = c.records.length * (D + 1) + (D + 1) :=
      Nat.succ_mul _ _
    have hiD : i.depth + 1 ≤ D := by
      simp only [ResolvedType.depth] at hD
      exact hD
    have hchild : ∀ q ∈ parts, q.1.depth ≤
        (bytesOfNatFixed 4 parts.length ++ parts.flatMap (·.2)).length / 4 *
          ((c.records.length + 1) * (D + 1)) := by
      intro q hq
      have hq' := ih q hq [] (by omega) List.nodup_nil (by simp) (by simp)
      have hq4 : q.2.length / 4 + 1 ≤
          (bytesOfNatFixed 4 parts.length ++ parts.flatMap (·.2)).length / 4 := by
        have := length_le_flatMap (·.2) hq
        simp only [List.length_append, length_bytesOfNatFixed]
        omega
      have hbytes := Nat.mul_le_mul_right ((c.records.length + 1) * (D + 1)) hq4
      rw [Nat.succ_mul] at hbytes
      simp only [List.length_nil, Nat.sub_zero] at hq'
      omega
    have helems := Value.elementsDepth_map_le (fun q : Value × List UInt8 => q.1) hchild
    simp only [Value.depth, ResolvedType.depth] at helems ⊢
    omega
  | _ =>
    intro V _ _ _ _
    simp only [Value.depth, ResolvedType.depth]
    omega

end Fuel

/-- The fuel `nested` gives itself covers the depth of every encoded value. -/
theorem Encodes.depth_le_nestedFuel {c : Catalog} {t : ResolvedType} {v : Value} {bs : List UInt8}
    (h : Encodes c t v bs) {L : Nat} (hL : bs.length ≤ L) : v.depth ≤ nestedFuel c t L := by
  have hv := h.depth_le (D := t.depth + c.depth) (by omega) [] (by omega) List.nodup_nil
    (by simp) (by simp)
  simp only [List.length_nil, Nat.sub_zero] at hv
  unfold nestedFuel Catalog.entryCount
  have hST : (c.records.length + 1) * (t.depth + c.depth + 1) ≤
      (c.records.length + c.composites.length + 1) * (t.depth + c.depth + 1) :=
    Nat.mul_le_mul_right _ (by omega)
  have hbytes := Nat.mul_le_mul (Nat.le_trans (Nat.div_le_self bs.length 4) hL) hST
  have hS : (c.records.length + 1) * (t.depth + c.depth + 1) =
      c.records.length * (t.depth + c.depth + 1) + (t.depth + c.depth + 1) := Nat.succ_mul _ _
  have hT : (L + 1) * ((c.records.length + c.composites.length + 1) * (t.depth + c.depth + 1)) =
      L * ((c.records.length + c.composites.length + 1) * (t.depth + c.depth + 1)) +
        (c.records.length + c.composites.length + 1) * (t.depth + c.depth + 1) := Nat.succ_mul _ _
  omega

/-- Every nested encoding reads back, with exactly the bytes after it left over, over a catalog
whose enums have distinct one-byte discriminants and whose records have distinct field names. -/
theorem nested_of_encodes {c : Catalog} (hv : VariantsValid c.enums) (hf : FieldsDistinct c.records)
    {t : ResolvedType} {v : Value} {bs : List UInt8} (h : Encodes c t v bs) (r : List UInt8) :
    nested c t (bs ++ r) = .ok (v, r) := by
  rw [nested_eq_nestedValue]
  exact h.reads hv hf _ (h.depth_le_nestedFuel (by simp)) r

end Wire

/-! ## The catalog of a declaration -/

namespace OrderedMap

theorem mem_insert {α : Type} {m : OrderedMap α} {k : String} {v : α} {e : String × α}
    (h : e ∈ m.insert k v) : e ∈ m ∨ e = (k, v) := by
  unfold insert at h
  split at h
  · obtain ⟨p, hp, rfl⟩ := List.mem_map.1 h
    split
    · exact Or.inr rfl
    · exact Or.inl hp
  · simpa using h

end OrderedMap

/-- Checked variants have distinct one-byte discriminants, none of them seen before. -/
theorem checkVariants_valid {name : String} : ∀ {seen : List Nat} {vs : List EnumVariant}
    {rs : List Variant}, checkVariants name seen vs = .ok rs →
      (rs.map (·.discriminant)).Nodup ∧ ∀ r ∈ rs, r.discriminant < 256 ∧ r.discriminant ∉ seen
  | _, [], _, h => by
    cases h
    simp
  | seen, v :: vs, rs, h => by
    unfold checkVariants at h
    split at h
    · cases h
    · rename_i hbyte
      split at h
      · cases h
      · rename_i hseen
        cases hr : checkVariants name (v.discriminant :: seen) vs with
        | error e =>
          rw [hr] at h
          cases h
        | ok rs' =>
          rw [hr] at h
          cases h
          obtain ⟨hnd, hrest⟩ := checkVariants_valid hr
          refine ⟨List.nodup_cons.2 ⟨fun hmem => ?_, hnd⟩, fun r hr' => ?_⟩
          · obtain ⟨w, hw, hwd⟩ := List.mem_map.1 hmem
            exact (hrest w hw).2 (hwd ▸ List.mem_cons_self)
          · rcases List.mem_cons.1 hr' with rfl | hr'
            · exact ⟨by dsimp only; omega, fun hmem => hseen (List.contains_iff_mem.2 hmem)⟩
            · exact ⟨(hrest r hr').1, fun hmem => (hrest r hr').2 (List.mem_cons_of_mem _ hmem)⟩

theorem resolveVariants_valid {name : String} {variants : List EnumVariant} {rs : List Variant}
    (h : resolveVariants name variants = .ok rs) :
    (rs.map (·.discriminant)).Nodup ∧ ∀ r ∈ rs, r.discriminant < 256 := by
  unfold resolveVariants at h
  split at h
  · cases h
  · obtain ⟨hnd, hall⟩ := checkVariants_valid h
    exact ⟨hnd, fun r hr => (hall r hr).1⟩

/-- Declaring named types keeps every declared enum's discriminants distinct and one byte wide. -/
theorem declareAll_variantsValid (doc : AbiDocument) : ∀ rest : OrderedMap TypeDefinition,
    Triple (fun s : Declarations × Context => Wire.VariantsValid s.1.enums) (declareAll doc rest)
      fun _ s => Wire.VariantsValid s.1.enums
  | [] => Triple.pure fun _ h => h
  | (name, .struct ds fields) :: rest => by
    intro s u s' hs h
    refine (Triple.bind (Declare.lift_triple (P := fun _ => True) (Q := fun _ _ => True)
      (fun _ _ _ _ _ => trivial) s.1) fun resolved => Triple.bind (Triple.modify fun s₁ hs₁ => ?_)
        fun _ => declareAll_variantsValid doc rest) s u s' ⟨rfl, trivial⟩ h
    obtain ⟨d₁, c₁⟩ := s₁
    obtain ⟨rfl, -⟩ := hs₁
    exact hs
  | (name, .enum ds variants) :: rest => by
    refine Triple.bind (liftExcept_ok _) fun vs => Triple.bind (Triple.modify fun s hs => ?_)
      fun _ => declareAll_variantsValid doc rest
    obtain ⟨d, c⟩ := s
    obtain ⟨hs, hvs⟩ := hs
    intro e he
    rcases OrderedMap.mem_insert he with he | rfl
    · exact hs e he
    · exact resolveVariants_valid hvs

theorem declareTypes_variantsValid (doc : AbiDocument) :
    Triple (fun s : Declarations × Context => Wire.VariantsValid s.1.enums) (declareTypes doc)
      fun _ s => Wire.VariantsValid s.1.enums :=
  declareTypes_of_declareAll (declareAll_variantsValid doc doc.types)

/-- Nested decoding inverts nested encoding: from `p ++ bs ++ r` at offset `|p|`, where `bs`
encodes `v`, decoding gives `v` and leaves `r`. -/
theorem nested_decodes_encoding {doc : AbiDocument} {s : Declarations × Context}
    (hdecl : ((declareTypes doc).run).run ({}, Context.forDocument doc) = (.ok (), s))
    (hfields : Wire.FieldsDistinct s.1.records) (ctx : Context) {t : ResolvedType} {v : Value}
    {bs : List UInt8} (henc : Wire.Encodes (s.1.catalog ctx) t v bs) (p r : List UInt8) :
    Wire.nested (s.1.catalog ctx) t ((p ++ bs ++ r).drop p.length) = .ok (v, r) := by
  have hv : Wire.VariantsValid s.1.enums :=
    declareTypes_variantsValid doc _ () s (fun _ he => by cases he) hdecl
  rw [List.append_assoc, List.drop_left]
  exact Wire.nested_of_encodes hv hfields henc r

/-- A contract declaring an enum and a struct that holds it beside a `u16` and a list of byte
strings. -/
def paletteContract : AbiDocument where
  buildInfo := { framework := { name := "multiversx-sc" } }
  name := "Palette"
  types := [("Color", .enum [] [⟨"Red", 0⟩, ⟨"Green", 1⟩]),
    ("Swatch", .struct [] [⟨"color", "Color"⟩, ⟨"code", "u16"⟩, ⟨"tags", "List<bytes>"⟩])]

/-- The declarations and context after declaring the palette's types. -/
def paletteDeclared : Declarations × Context :=
  (((declareTypes paletteContract).run).run ({}, Context.forDocument paletteContract)).2

/-- A swatch of colour `Green`, code 300 and the one tag `CA FE`, between a byte before it and a
byte after it. -/
theorem swatch_reads_back :
    Wire.nested (paletteDeclared.1.catalog paletteDeclared.2) (.record "Swatch")
      (([0xAA] ++ [1, 1, 44, 0, 0, 0, 1, 0, 0, 0, 2, 0xCA, 0xFE] ++ [0xBB] : List UInt8).drop 1) =
      .ok (.record "Swatch" [("color", .enum "Color" "Green" 1), ("code", .unsigned 300),
        ("tags", .list [.bytes [0xCA, 0xFE]])], [0xBB]) := by
  refine nested_decodes_encoding (rfl : ((declareTypes paletteContract).run).run
    ({}, Context.forDocument paletteContract) = (.ok (), paletteDeclared))
    (by unfold Wire.FieldsDistinct; decide) paletteDeclared.2 ?_ [0xAA] [0xBB]
  refine Wire.Encodes.record [(⟨"color", .enum "Color"⟩, .enum "Color" "Green" 1, [1]),
    (⟨"code", .primitive .u16⟩, .unsigned 300, Wire.bytesOfNatFixed 2 300),
    (⟨"tags", .list (.primitive .bytes)⟩, .list [.bytes [0xCA, 0xFE]],
      Wire.bytesOfNatFixed 4 1 ++ Wire.lengthPrefixed [0xCA, 0xFE])] rfl rfl ?_
  intro q hq
  simp only [List.mem_cons, List.mem_nil_iff, or_false] at hq
  rcases hq with rfl | rfl | rfl
  · exact Wire.Encodes.enum ⟨"Green", 1⟩ rfl (by decide)
  · exact Wire.Encodes.unsigned 300 rfl (by decide)
  · exact Wire.Encodes.list [(.bytes [0xCA, 0xFE], Wire.lengthPrefixed [0xCA, 0xFE])] (by decide)
      fun q hq => by
        rw [List.mem_singleton.1 hq]
        exact Wire.Encodes.bytes [0xCA, 0xFE] (by decide)

end ContractAbi
