/-!
# Non-negative doubles and their rounding

A double that is finite and not negative is `significand · 2^exponent`. The result of an
operation on doubles is the exact result rounded to the nearest number with a 53-bit
significand, a tie going to the even significand. `Binary64.round` computes that rounding on
natural numbers, so sums and quotients here are exactly those a machine computes, with no
floating-point operation involved.

The exponent is left unbounded: the values met here, ratios of small counts, are far from the
ranges where doubles overflow or lose bits as subnormals, and in between the unbounded
rounding is the machine's.
-/

set_option autoImplicit false

namespace TypeReflection

/-- A non-negative double, `significand · 2^exponent`. A rounded value has a significand of
exactly 53 bits, or is zero. -/
structure Binary64 where
  significand : Nat
  exponent : Int
  deriving DecidableEq, Repr

namespace Binary64

/-- Whether `num / den < 2^k`. -/
def belowPower (num den : Nat) (k : Int) : Bool :=
  if 0 ≤ k then num < den * Nat.pow 2 k.toNat else num * Nat.pow 2 (-k).toNat < den

/-- The value `num / den · 2^shift` rounded to the nearest double, ties to even; zero when
`num` or `den` is zero. With `2^f ≤ num / den < 2^(f+1)` the significand is the value scaled
by `2^(52 - f)`, which lies in `[2^52, 2^53)` before rounding; rounding up to `2^53` carries
into the exponent. -/
def round (num den : Nat) (shift : Int) : Binary64 :=
  if num == 0 || den == 0 then ⟨0, 0⟩
  else
    let guess : Int := (Nat.log2 num : Int) - Nat.log2 den
    let f := if belowPower num den guess then guess - 1 else guess
    let scale : Int := 52 - f
    let (n, d) := if 0 ≤ scale then (num * Nat.pow 2 scale.toNat, den) else (num, den * Nat.pow 2 (-scale).toNat)
    let q := n / d
    let r := n % d
    let q := if 2 * r > d || (2 * r == d && q % 2 == 1) then q + 1 else q
    if q == Nat.pow 2 53 then ⟨Nat.pow 2 52, shift - scale + 1⟩ else ⟨q, shift - scale⟩

/-- The double nearest to a natural number; exact below `2^53`. -/
def ofNat (n : Nat) : Binary64 := round n 1 0

/-- The significands of two doubles over their common smallest power of two. -/
def aligned (x y : Binary64) : Nat × Nat × Int :=
  let e := min x.exponent y.exponent
  (x.significand * Nat.pow 2 (x.exponent - e).toNat, y.significand * Nat.pow 2 (y.exponent - e).toNat, e)

/-- Whether `x` is smaller than `y`, comparing exact values. -/
def lt (x y : Binary64) : Bool :=
  let (a, b, _) := aligned x y
  a < b

/-- Whether `x` is at most `y`, comparing exact values. -/
def le (x y : Binary64) : Bool :=
  let (a, b, _) := aligned x y
  a ≤ b

/-- The sum, rounded. -/
def add (x y : Binary64) : Binary64 :=
  let (a, b, e) := aligned x y
  round (a + b) 1 e

/-- The quotient, rounded; zero when the divisor is zero. -/
def div (x y : Binary64) : Binary64 :=
  round x.significand y.significand (x.exponent - y.exponent)

instance : Add Binary64 := ⟨add⟩

instance : Div Binary64 := ⟨div⟩

end Binary64

end TypeReflection
