/-!
# Jaro similarity

The Jaro similarity of two texts: characters of the first are matched, left to right, with the
first unmatched equal character of the second within a window of half the longer length less
one; with `m` matches and `t` half the number of matched pairs out of order, the similarity is
`(m / |a| + m / |b| + (m - t) / m) / 3`, and 0 without matches (1 for two empty texts).

The command line offers a name as a suggestion when its similarity to what was typed exceeds
0.7. The similarity is computed in double precision, and that matters at the threshold: a
similarity of exactly 7/10, such as three matches between texts of five and six characters,
comes out a little above the double nearest 0.7, so the name is offered.
-/

namespace ContractAbi.Text

/-- Marks the first unmatched character of `b` equal to `c` at a position in `[lo, hi)`. -/
def matchOne (c : Char) (lo hi : Nat) : List (Char × Bool) → Nat → Option (List (Char × Bool))
  | [], _ => none
  | (d, used) :: rest, j =>
    if lo ≤ j ∧ j < hi ∧ d = c ∧ !used then some ((d, true) :: rest)
    else ((d, used) :: ·) <$> matchOne c lo hi rest (j + 1)

/-- Matches the characters of `a` from position `i` on; answers which were matched and the
marked second text. -/
def matchAll (window : Nat) : List Char → Nat → List (Char × Bool) → List Bool × List (Char × Bool)
  | [], _, marked => ([], marked)
  | c :: cs, i, marked =>
    match matchOne c (i - window) (i + window + 1) marked 0 with
    | some marked' =>
      let (flags, final) := matchAll window cs (i + 1) marked'
      (true :: flags, final)
    | none =>
      let (flags, final) := matchAll window cs (i + 1) marked
      (false :: flags, final)

def matchedChars (cs : List Char) (flags : List Bool) : List Char :=
  (cs.zip flags).filterMap fun (c, f) => if f then some c else none

/-- The number of matches and of transpositions (half the out-of-order pairs). -/
def jaroCounts (a b : List Char) : Nat × Nat :=
  let window := max a.length b.length / 2 - 1
  let (flags, marked) := matchAll window a 0 (b.map (·, false))
  let ma := matchedChars a flags
  let mb := marked.filterMap fun (c, f) => if f then some c else none
  let outOfOrder := ((ma.zip mb).filter fun (x, y) => x ≠ y).length
  (ma.length, outOfOrder / 2)

/-- The Jaro similarity of `a` and `b` in double precision, summed left to right and then
divided by three. -/
def jaro (a b : String) : Float :=
  let a := a.toList
  let b := b.toList
  if a.isEmpty && b.isEmpty then 1
  else if a.isEmpty || b.isEmpty then 0
  else
    let (m, t) := jaroCounts a b
    if m = 0 then 0
    else
      let mf := m.toFloat
      (mf / a.length.toFloat + mf / b.length.toFloat + (m - t).toFloat / mf) / 3

/-- The candidates whose similarity to `typed` exceeds 0.7, least similar first; equally
similar candidates keep their given order. -/
def similar (typed : String) (candidates : List String) : List String :=
  let scored := (candidates.map fun c => (jaro typed c, c)).filter fun x => x.1 > 7 / 10
  (scored.mergeSort fun x y => x.1 ≤ y.1).map (·.2)

end ContractAbi.Text
