import TypeReflection.Binary64

/-!
# Jaro similarity

The Jaro similarity of two words is `(m/|a| + m/|b| + (m - t)/m) / 3`, where `m` counts the
matching characters and `t` half the transpositions. A character of `a` at position `i` matches
the first unmatched equal character of `b` whose position lies within `max(|a|, |b|) / 2 - 1`
of `i`; the transpositions are the places where the matched characters of `a` and of `b`,
each read in order, differ. Two empty words are alike (similarity one), a word and the empty
word not at all (zero), and so are two words with no match.

The similarity is computed in doubles, one rounding per operation in the order of the formula,
and the threshold `0.7` is the double nearest to it. The rounding decides close calls: four
matches out of five with two transpositions give exactly `7/10`, which is not above the
fraction `7/10` but is, by one unit in the last place, above the double `0.7`.
-/

set_option autoImplicit false

namespace TypeReflection.Similarity

/-- The first position `j` in `[lo, hi)` where `b` holds `c` and `taken` is false. -/
def firstFree (b : Array Char) (taken : Array Bool) (c : Char) (lo hi : Nat) : Option Nat :=
  (List.range' lo (hi - lo)).find? fun j => b[j]? == some c && taken[j]? == some false

/-- For each character of `a`, whether it matched, and for each of `b`, whether it was matched. -/
def matchFlags (a b : Array Char) : Array Bool × Array Bool :=
  let range := max a.size b.size / 2 - 1
  (List.range a.size).foldl (fun (aFlags, bFlags) i =>
    let lo := i - range
    let hi := min b.size (i + range + 1)
    match a[i]? with
    | none => (aFlags, bFlags)
    | some c =>
      match firstFree b bFlags c lo hi with
      | some j => (aFlags.set! i true, bFlags.set! j true)
      | none => (aFlags, bFlags)) (Array.replicate a.size false, Array.replicate b.size false)

/-- The characters whose flag is set, in order. -/
def flagged (cs : Array Char) (flags : Array Bool) : List Char :=
  (cs.toList.zip flags.toList).filterMap fun (c, f) => if f then some c else none

/-- The similarity of words of lengths `a` and `b` with `m` matches and `t` half
transpositions, `(m/a + m/b + (m - t)/m) / 3` in doubles. -/
def score (a b m t : Nat) : Binary64 :=
  let ofNat := Binary64.ofNat
  (ofNat m / ofNat a + ofNat m / ofNat b + ofNat (m - t) / ofNat m) / ofNat 3

/-- The Jaro similarity of two words. -/
def jaro (a b : String) : Binary64 :=
  let a := a.toList.toArray
  let b := b.toList.toArray
  if a.size == 0 && b.size == 0 then Binary64.ofNat 1
  else if a.size == 0 || b.size == 0 then Binary64.ofNat 0
  else
    let (aFlags, bFlags) := matchFlags a b
    let ma := flagged a aFlags
    let mb := flagged b bFlags
    let m := ma.length
    if m == 0 then Binary64.ofNat 0
    else score a.size b.size m (((ma.zip mb).filter fun (x, y) => x != y).length / 2)

/-- The double nearest to `0.7`, above which a candidate counts as similar. -/
def threshold : Binary64 := Binary64.round 7 10 0

/-- The candidate most like `word` among those more alike than `0.7`; of equally alike ones
the last. -/
def closest (word : String) (candidates : List String) : Option String :=
  let best := candidates.foldl (fun best c =>
    let s := jaro word c
    if threshold.lt s then
      match best with
      | some (_, t) => if t.le s then some (c, s) else best
      | none => some (c, s)
    else best) (none : Option (String × Binary64))
  best.map (·.1)

end TypeReflection.Similarity
