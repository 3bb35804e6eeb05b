/-!
# Shortest decimal text of a binary float

A finite double is written with the fewest significant digits that read back as the same
double, and of those the nearest. Fixed notation is used when the decimal exponent lies in
`-5 ..= 15`, with `.0` after an integral value; otherwise one digit, the rest after a point, and
an exponent with its sign (`1.8446744073709552e+19`, `1e-7`). The positional
form writes the same digits without an exponent, however far the point lies.

The digits are found in exact arithmetic: the double is `m · 2^e`; for 1, 2, … 17 digits its
nearest decimal of that many digits is tried, and the first that reads back wins.
-/

namespace ContractAbi.Text

/-- The exact value of a finite double as a fraction `num / den` and its sign. -/
def floatParts (f : Float) : Bool × Nat × Nat :=
  let bits : Nat := f.toBits.toNat
  let neg : Bool := bits / Nat.pow 2 63 % 2 == 1
  let expField : Nat := bits / Nat.pow 2 52 % 2048
  let frac : Nat := bits % Nat.pow 2 52
  let (m, e) : Nat × Int :=
    if expField = 0 then (frac, -1074) else (frac + Nat.pow 2 52, (expField : Int) - 1075)
  if e ≥ 0 then (neg, m * Nat.pow 2 e.toNat, 1) else (neg, m, Nat.pow 2 e.natAbs)

/-- The number of decimal digits of a positive number, less one. -/
def log10Floor (n : Nat) : Nat :=
  if n < 10 then 0 else log10Floor (n / 10) + 1

/-- The least `t ≥ start` with `num · 10^t ≥ den`; a double needs at most 400 steps. -/
def scaleUp (num den : Nat) : Nat → Nat → Nat
  | 0, t => t
  | fuel + 1, t => if num * 10 ^ t ≥ den then t else scaleUp num den fuel (t + 1)

/-- The decimal exponent `x` with `10^x ≤ num/den < 10^(x+1)`, for a positive fraction. -/
def decimalExponent (num den : Nat) : Int :=
  if num ≥ den then (log10Floor (num / den) : Int)
  else -((scaleUp num den 400 1 : Nat) : Int)

/-- `num / den` rounded to the nearest whole number, ties to even. -/
def roundHalfEven (num den : Nat) : Nat :=
  let q := num / den
  let r := num % den
  if 2 * r > den then q + 1 else if 2 * r < den then q else if q % 2 = 0 then q else q + 1

/-- The nearest decimal with `n` significant digits to `num/den`, as digits and the power of ten
of the last digit. -/
def nearestDigits (num den : Nat) (n : Nat) : Nat × Int :=
  let k : Int := decimalExponent num den - (n : Int) + 1
  let d := if k ≥ 0 then roundHalfEven num (den * Nat.pow 10 k.toNat)
    else roundHalfEven (num * Nat.pow 10 k.natAbs) den
  (d, k)

/-- The double a decimal `d · 10^k` reads as. -/
def readDecimal (d : Nat) (k : Int) : Float :=
  if k ≥ 0 then Float.ofScientific d false k.toNat else Float.ofScientific d true k.natAbs

/-- The fewest digits of a positive double that read back, with the power of ten of the last. -/
def shortestDigits (f : Float) (num den : Nat) : Nat × Int :=
  let rec go : Nat → Nat → Nat × Int
    | 0, _ => nearestDigits num den 17
    | fuel + 1, n =>
      let (d, k) := nearestDigits num den n
      if (readDecimal d k).toBits == f.abs.toBits then (d, k) else go fuel (n + 1)
  go 17 1

/-- Drops trailing zero digits, raising the exponent. -/
def trimZeros (d : Nat) (k : Int) : Nat × Int :=
  let rec go : Nat → Nat → Int → Nat × Int
    | 0, d, k => (d, k)
    | fuel + 1, d, k => if d % 10 = 0 ∧ d > 0 then go fuel (d / 10) (k + 1) else (d, k)
  go 20 d k

def digitChars (n : Nat) : List Char := Nat.toDigits 10 n

def floatText (f : Float) : String :=
  let (neg, num, den) := floatParts f
  let sign := if neg then "-" else ""
  if num = 0 then sign ++ "0.0"
  else
    let (d0, k0) := shortestDigits f num den
    let (d, k) := trimZeros d0 k0
    let ds := digitChars d
    let len := ds.length
    let x : Int := k + len - 1
    let body :=
      if -5 ≤ x ∧ x ≤ 15 then
        if k ≥ 0 then String.ofList (ds ++ List.replicate k.toNat '0') ++ ".0"
        else if x ≥ 0 then
          String.ofList (ds.take (x.toNat + 1)) ++ "." ++ String.ofList (ds.drop (x.toNat + 1))
        else "0." ++ String.ofList (List.replicate (x.natAbs - 1) '0' ++ ds)
      else
        let mant := match ds with
          | [c] => String.singleton c
          | c :: rest => String.singleton c ++ "." ++ String.ofList rest
          | [] => "0"
        mant ++ "e" ++ (if x < 0 then "-" else "+") ++ String.ofList (digitChars x.natAbs)
    sign ++ body

/-- The text of a double in positional notation: the same shortest digits, never an exponent,
and `.0` after an integral value; infinities and NaN by name. -/
def positionalText (f : Float) : String :=
  if f.isNaN then "NaN"
  else if f.isInf then (if f < 0 then "-inf" else "inf")
  else
    let (neg, num, den) := floatParts f
    let sign := if neg then "-" else ""
    if num = 0 then sign ++ "0.0"
    else
      let (d0, k0) := shortestDigits f num den
      let (d, k) := trimZeros d0 k0
      let ds := digitChars d
      let body :=
        if k ≥ 0 then String.ofList (ds ++ List.replicate k.toNat '0') ++ ".0"
        else
          let frac := k.natAbs
          if ds.length > frac then
            String.ofList (ds.take (ds.length - frac)) ++ "." ++ String.ofList (ds.drop (ds.length - frac))
          else "0." ++ String.ofList (List.replicate (frac - ds.length) '0' ++ ds)
      sign ++ body

end ContractAbi.Text
