import Mathlib.Logic.Function.Iterate
import TypeReflection.Proofs.Token.Scan
import TypeReflection.Token.Lexer

/-!
# Looking for markers without tokenizing

A header is generated only if it holds a reflection marker. The question is answered by a pass
of its own over the pieces of the header (`Lexer.hasReflectionMarkers`), which stops at the
first marker and never reports anything. It agrees with the token stream: the pass finds a
marker exactly when some token of the stream is one, however far the iterator asked has read.

Two facts carry this. Reporting and dropping pieces only ever removes pieces that are no
marker, and the end-of-input token is no marker either, so a scan finds a marker token exactly
when some piece it reads is one (`hasMarkers_scanFrom`). And the iterator gives, call by call,
the token stream of the whole header (`collect_new`), while no call changes the header it reads
(`source_next`).
-/

set_option autoImplicit false

namespace TypeReflection

namespace Scan

theorem markerAhead_nil : markerAhead [] = false := by
  rw [markerAhead]

theorem markerAhead_cons (c : Char) (rest : List Char) :
    markerAhead (c :: rest) =
      ((step c rest).1.isMarker || markerAhead (rest.drop (step c rest).2)) := by
  rw [markerAhead]

/-- The tokens of a scan hold a marker exactly when those found before it do or some piece it
reads is one. -/
theorem hasMarkers_scanFrom (cs : List Char) (pos : Position) (found : TokenStream) :
    (scanFrom cs pos found).hasMarkers = (found.hasMarkers || markerAhead cs) := by
  fun_induction scanFrom cs pos found with
  | case1 pos found =>
    simp [TokenStream.hasMarkers, markerAhead_nil, Token.endOfInput, TokenKind.isMarker]
  | case2 pos found c rest piece more hstep taken span found' ih =>
    rw [ih, markerAhead_cons, hstep]
    -- only a token piece adds to what was found, and it is a marker exactly as the piece is
    cases piece with
    | token kind => simp [found', TokenStream.hasMarkers, Piece.isMarker, Bool.or_assoc]
    | gap | malformedNumber | unterminatedString | stray =>
      simp [found', TokenStream.hasMarkers, Piece.isMarker]

theorem hasMarkers_tokenize (text : String) :
    (tokenize text).hasMarkers = markerAhead text.toList := by
  rw [tokenize, hasMarkers_scanFrom]
  simp [TokenStream.hasMarkers]

end Scan

namespace Lexer

/-- No call of `next` changes the header the scan reads. -/
theorem source_next (l : Lexer) : l.next.2.source = l.source := by
  fun_induction next l with
  | case1 | case2 | case3 => rfl
  | case4 l hfin c rest hrest more taken span l'' hstep ih
  | case5 l hfin c rest hrest more taken span l'' hstep ih
  | case6 l hfin c rest hrest more taken l'' hstep ih
  | case7 l hfin c rest hrest more taken l'' hstep ih => exact ih

theorem source_iterate (l : Lexer) (n : Nat) :
    ((fun l => (next l).2)^[n] l).source = l.source := by
  induction n with
  | zero => rfl
  | succ n ih => rw [Function.iterate_succ_apply', source_next, ih]

/-- After the end-of-input token nothing more is given, and the scan stays as it is. -/
theorem next_of_finished {l : Lexer} (h : l.finished = true) : l.next = (none, l) := by
  rw [next, if_pos h]

/-- A call on a scan that has not finished gives a token; the scan of what the call had to
read is that token followed by the scan of what it leaves. -/
theorem scanFrom_next {l : Lexer} (h : l.finished = false) (found : Array Token) :
    ∃ t l', l.next = (some t, l') ∧
      Scan.scanFrom l.rest l.pos ⟨found, l.issues⟩ =
        if l'.finished then ⟨found.push t, l'.issues⟩
        else Scan.scanFrom l'.rest l'.pos ⟨found.push t, l'.issues⟩ := by
  fun_induction next l with
  | case1 l hfin => simp [h] at hfin
  | case2 l hfin hrest =>
    refine ⟨_, _, rfl, ?_⟩
    rw [hrest, Scan.scanFrom]
    rfl
  | case3 l hfin c rest hrest more taken span l'' kind hstep =>
    refine ⟨_, _, rfl, ?_⟩
    rw [hrest, Scan.scanFrom]
    simp only [hstep, l'', h]
    rfl
  | case4 l hfin c rest hrest more taken span l'' hstep ih
  | case5 l hfin c rest hrest more taken span l'' hstep ih
  | case6 l hfin c rest hrest more taken l'' hstep ih
  | case7 l hfin c rest hrest more taken l'' hstep ih =>
    -- the piece read past is one step of the scan too, which reports it or drops it
    obtain ⟨t, l', hnext, heq⟩ := ih h
    refine ⟨t, l', hnext, ?_⟩
    rw [← heq, hrest, Scan.scanFrom]
    simp only [hstep]
    rfl

theorem collect_of_finished {l : Lexer} (h : l.finished = true) (found : Array Token) :
    l.collect found = ⟨found, l.issues⟩ := by
  rw [collect]
  split
  · next l' hnext =>
    rw [next_of_finished h] at hnext
    cases hnext
    rfl
  · next t l' hnext => simp [next_of_finished h] at hnext

/-- Draining a scan that has not finished gives the tokens found so far and then the scan of
what it has still to read. -/
theorem collect_eq_scanFrom {l : Lexer} (h : l.finished = false) (found : Array Token) :
    l.collect found = Scan.scanFrom l.rest l.pos ⟨found, l.issues⟩ := by
  fun_induction collect l found with
  | case1 l found l' hnext =>
    obtain ⟨t, l'', hnext', -⟩ := scanFrom_next h found
    simp [hnext'] at hnext
  | case2 l found t l' hnext ih =>
    obtain ⟨t', l'', hnext', heq⟩ := scanFrom_next h found
    rw [hnext', Prod.mk.injEq, Option.some.injEq] at hnext
    obtain ⟨rfl, rfl⟩ := hnext
    rw [heq]
    -- the token given last is the end of input exactly when the scan has finished
    cases hfin : l''.finished with
    | false => rw [if_neg (by simp), ih hfin]
    | true => rw [if_pos rfl, collect_of_finished hfin]

/-- Draining a fresh scan gives the token stream of the whole header. -/
theorem collect_new (source : String) : (new source).collect #[] = tokenize source :=
  collect_eq_scanFrom rfl #[]

/-- The marker pass finds a marker exactly when the drained token stream holds a marker token,
whatever number of calls of `next` the scan asked has answered. -/
theorem hasReflectionMarkers_iff_marker_token (source : String) (n : Nat) :
    ((fun l => (next l).2)^[n] (new source)).hasReflectionMarkers = true ↔
      ∃ t ∈ ((new source).collect #[]).tokens, t.kind.isMarker = true := by
  have hsource : ((fun l => (next l).2)^[n] (new source)).source = source := source_iterate _ n
  rw [hasReflectionMarkers, hsource, collect_new, ← Scan.hasMarkers_tokenize]
  exact Array.any_eq_true'

end Lexer

end TypeReflection
