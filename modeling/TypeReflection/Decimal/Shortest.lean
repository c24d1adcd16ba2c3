/-!
# Shortest decimal digits of a double

A finite double is `m · 2^e` for a significand `m` and an exponent `e`. The reals that round to
it form an interval around it, reaching half-way to each neighbouring double and including
its ends exactly when `m` is even. `Decimal.shortest` gives the decimal `d · 10^k` with the
fewest significant digits inside that interval, and of two such the one nearer to the double;
an exact tie goes as the caller's `Tie` says, to the even one or to the larger. It tries 1, 2, ... 17 significant digits; with `n` digits
only the two neighbours of the double on the grid `10^k` can be the answer, and 17 digits
always hit.

All arithmetic is on natural numbers: the double and the ends of its interval are written
as numerators over one common denominator.
-/

set_option autoImplicit false

namespace TypeReflection.Decimal

/-- What a double is: a finite value `(-1)^negative · significand · 2^exponent`, an infinity,
or not a number. -/
inductive FloatParts where
  | finite (negative : Bool) (significand : Nat) (exponent : Int)
  | infinite (negative : Bool)
  | nan
  deriving DecidableEq, Repr

/-- Takes a double apart from its bits. -/
def parts (f : Float) : FloatParts :=
  let bits : Nat := f.toBits.toNat
  let negative := bits / Nat.pow 2 63 % 2 == 1
  let biased : Nat := bits / Nat.pow 2 52 % 2048
  let fraction : Nat := bits % Nat.pow 2 52
  if biased == 2047 then
    if fraction == 0 then .infinite negative else .nan
  else if biased == 0 then .finite negative fraction (-1074)
  else .finite negative (fraction + Nat.pow 2 52) ((biased : Int) - 1075)

/-- Which of two candidates exactly as near as each other wins. -/
inductive Tie where
  /-- The one whose last digit is even. -/
  | even
  /-- The larger one. -/
  | up
  deriving DecidableEq, Repr

/-- The number of decimal digits of a positive number, less one. -/
def floorLog10 (n : Nat) : Nat := (Nat.toDigits 10 n).length - 1

/-- Compares `c · 10^k` with `x / den`. -/
def compareScaled (c : Nat) (k : Int) (x den : Nat) : Ordering :=
  if 0 ≤ k then compare (c * Nat.pow 10 k.toNat * den) x
  else compare (c * den) (x * Nat.pow 10 (-k).toNat)

/-- Drops trailing zero digits, raising the exponent. -/
def trimZeros (d : Nat) (k : Int) (fuel : Nat) : Nat × Int :=
  match fuel with
  | 0 => (d, k)
  | fuel + 1 => if d != 0 && d % 10 == 0 then trimZeros (d / 10) (k + 1) fuel else (d, k)

/-- The shortest decimal `(d, k)`, meaning `d · 10^k`, that reads back as the positive double
`m · 2^e`. `halfGapBelow` says that the double below is nearer than the one above, which
happens when `m` is a power of two with the smallest full significand; `tie` picks between
two candidates equally near the double. -/
def shortest (tie : Tie) (m : Nat) (e : Int) (halfGapBelow : Bool) : Nat × Int :=
  let up := if 0 ≤ e then Nat.pow 2 e.toNat else 1
  let den := if 0 ≤ e then 4 else 4 * Nat.pow 2 (-e).toNat
  let value := 4 * m * up
  let low := (4 * m - (if halfGapBelow then 1 else 2)) * up
  let high := (4 * m + 2) * up
  let inclusive := m % 2 == 0
  let inside (c : Nat) (k : Int) : Bool :=
    let aboveLow := match compareScaled c k low den with
      | .lt => false
      | .eq => inclusive
      | .gt => true
    let belowHigh := match compareScaled c k high den with
      | .lt => true
      | .eq => inclusive
      | .gt => false
    aboveLow && belowHigh
  let magnitude : Int :=
    if den ≤ value then floorLog10 (value / den)
    else
      let r := floorLog10 (den / value)
      if value * Nat.pow 10 r == den then -(r : Int) else -((r : Int) + 1)
  let attempt (n : Nat) : Option (Nat × Int) :=
    let k := magnitude - n + 1
    let d := if 0 ≤ k then value / (den * Nat.pow 10 k.toNat) else value * Nat.pow 10 (-k).toNat / den
    match inside d k, inside (d + 1) k with
    | true, true =>
      match compareScaled (2 * d + 1) k (2 * value) den with
      | .gt => some (d, k)
      | .lt => some (d + 1, k)
      | .eq =>
        match tie with
        | .even => some (if d % 2 == 0 then d else d + 1, k)
        | .up => some (d + 1, k)
    | true, false => some (d, k)
    | false, true => some (d + 1, k)
    | false, false => none
  let (d, k) := ((List.range 17).findSome? fun i => attempt (i + 1)).getD (m * up, 0)
  trimZeros d k 400

/-- A double as a sign and shortest decimal digits, an infinity, or not a number. -/
inductive Shortest where
  | finite (negative : Bool) (digits : Nat) (exponent : Int)
  | infinite (negative : Bool)
  | nan
  deriving DecidableEq, Repr

/-- The shortest decimal form of a double, ties going as `tie` says; zero is `0 · 10^0` with
its sign. -/
def ofFloat (tie : Tie) (f : Float) : Shortest :=
  match parts f with
  | .finite negative 0 _ => .finite negative 0 0
  | .finite negative m e =>
    let halfGapBelow := m == Nat.pow 2 52 && e > -1074
    let (d, k) := shortest tie m e halfGapBelow
    .finite negative d k
  | .infinite negative => .infinite negative
  | .nan => .nan

/-- The digits `d · 10^k` written out without an exponent. -/
def positional (d : Nat) (k : Int) : String :=
  let digits := toString d
  if 0 ≤ k then digits ++ String.ofList (List.replicate k.toNat '0')
  else
    let shift := (-k).toNat
    if shift < digits.length then
      String.ofList (digits.toList.take (digits.length - shift)) ++ "." ++
        String.ofList (digits.toList.drop (digits.length - shift))
    else "0." ++ String.ofList (List.replicate (shift - digits.length) '0') ++ digits

end TypeReflection.Decimal
