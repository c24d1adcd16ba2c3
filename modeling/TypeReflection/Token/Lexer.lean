import TypeReflection.Token.Stream

/-!
# The scanner as an iterator

`tokenize` scans a whole header at once. The scanner is also used one token at a time: a
`Lexer` holds the header, the part of it not read yet and where that part starts, and the
anomalies reported so far. Each call of `Lexer.next` reads pieces until one is a token,
reporting malformed numbers and unterminated texts on the way and dropping gaps and stray
characters; once the text runs out it gives the end-of-input token, and after that nothing.
`Lexer.collect` drains an iterator into a token stream.

The question whether a header holds a reflection marker is answered by a pass of its own
(`Lexer.hasReflectionMarkers`): it reads the pieces of the whole header afresh, whatever the
iterator has read already, and stops at the first marker.
-/

set_option autoImplicit false

namespace TypeReflection

namespace Scan

/-- Whether a piece is a reflection-marker token. -/
def Piece.isMarker : Piece → Bool
  | .token kind => kind.isMarker
  | _ => false

/-- Whether any piece of `cs` is a reflection marker, reading piece by piece and stopping at
the first marker. Malformed numbers, unterminated texts, gaps and stray characters are pieces
like the others here: they are read past and never reported. -/
def markerAhead (cs : List Char) : Bool :=
  match cs with
  | [] => false
  | c :: rest =>
    let (piece, more) := step c rest
    piece.isMarker || markerAhead (rest.drop more)
termination_by cs.length
decreasing_by
  simp only [List.length_drop, List.length_cons]
  omega

end Scan

/-- A scan of a header in progress. -/
structure Lexer where
  /-- The whole header. -/
  source : String
  /-- What is not read yet. -/
  rest : List Char
  /-- Where `rest` starts. -/
  pos : Position
  /-- The anomalies reported so far. -/
  issues : Array LexIssue
  /-- Whether the end-of-input token has been given. -/
  finished : Bool
  deriving Repr

namespace Lexer

/-- A scan of `source` that has read nothing yet. -/
def new (source : String) : Lexer := ⟨source, source.toList, Position.start, #[], false⟩

/-- The next token and the scan after it. Pieces that are no token are read past, the anomalies
among them reported; at the end of the text the end-of-input token is given once. -/
def next (l : Lexer) : Option Token × Lexer :=
  if l.finished then (none, l)
  else
    match _hrest : l.rest with
    | [] => (some (Token.endOfInput (l.pos.spanOver [])), { l with finished := true })
    | c :: rest =>
      let (piece, more) := Scan.step c rest
      let taken := c :: rest.take more
      let span := l.pos.spanOver taken
      let l' := { l with rest := rest.drop more, pos := l.pos.after taken }
      match piece with
      | .token kind => (some ⟨kind, String.ofList taken, span⟩, l')
      | .malformedNumber =>
        next { l' with issues := l.issues.push (.malformedNumber (String.ofList taken) span) }
      | .unterminatedString => next { l' with issues := l.issues.push (.unterminatedString span) }
      | .gap | .stray => next l'
termination_by l.rest.length
decreasing_by all_goals (simp only [_hrest, List.length_drop, List.length_cons]; omega)

/-- What is left to do: the characters not read, and one more while the end-of-input token is
still to come. -/
def remaining (l : Lexer) : Nat := l.rest.length + if l.finished then 0 else 1

theorem remaining_next_lt {l : Lexer} {t : Token} {l' : Lexer} (h : l.next = (some t, l')) :
    l'.remaining < l.remaining := by
  fun_induction next l with
  | case1 => simp at h
  | case2 l hfin hrest =>
    obtain ⟨-, rfl⟩ := Prod.mk.inj h
    simp [remaining, hrest, hfin]
  | case3 l hfin c rest hrest more taken span l'' kind hstep =>
    obtain ⟨-, rfl⟩ := Prod.mk.inj h
    simp only [remaining, l'', hrest, List.length_drop, List.length_cons]
    omega
  | case4 l hfin c rest hrest more taken span l'' hstep ih
  | case5 l hfin c rest hrest more taken span l'' hstep ih
  | case6 l hfin c rest hrest more taken l'' hstep ih
  | case7 l hfin c rest hrest more taken l'' hstep ih =>
    -- a piece read past leaves fewer characters and the same end to come
    refine Nat.lt_of_lt_of_le (ih h) ?_
    simp only [remaining, l'', hrest, List.length_drop, List.length_cons]
    omega

/-- Drains the scan: the tokens it still gives, after `found`, and the anomalies reported by the
time it stops. -/
def collect (l : Lexer) (found : Array Token) : TokenStream :=
  match _hnext : l.next with
  | (none, l') => ⟨found, l'.issues⟩
  | (some t, l') => collect l' (found.push t)
termination_by l.remaining
decreasing_by exact remaining_next_lt _hnext

/-- Whether the header holds a reflection marker outside comments and quoted texts. The pass
reads the whole header from its start and does not move the scan. -/
def hasReflectionMarkers (l : Lexer) : Bool := Scan.markerAhead l.source.toList

end Lexer

end TypeReflection
