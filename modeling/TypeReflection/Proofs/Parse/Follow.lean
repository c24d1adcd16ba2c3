import TypeReflection.Proofs.Parse.Rounds
import TypeReflection.Proofs.Parse.Braces

/-!
# Parsing tokens that stand elsewhere

Text inserted into a header moves the tokens after it: they stand at later indices, their spans
start later by the bytes inserted, and they lie on later lines by the line feeds inserted; on
their first line the columns change too. The parser reads forward from its cursor, compares
offsets only with one another, and keeps lines but never columns. So a step run on tokens that
stand `offset` places further on, moved by a `Shift`, ends `offset` places further on, with the
same outcome up to the move.

A `Relocation` pairs the tokens a step is run on (`source`) with those it is compared to
(`target`). `Relocation.Sim R p q` says that wherever the source run of `p` reads tokens that
stand moved in the target (`Relocation.Window`), the target run of `q` from the cursor moved on
as far ends moved on as far, failing where `p` fails and otherwise with an outcome related to
`p`'s by `R`. Binds, branches and handlers keep it (`Sim.bind`, `Sim.ite`, `Sim.tryCatch`), so
each parser follows from its parts.

The window is what the source run reads, from its first cursor to its last, and no further:
the tokens after it may have nothing to do with each other. This is what lets a walk over the
tokens of a complete declaration be compared with the walk over the same tokens followed by
others.
-/

set_option autoImplicit false

namespace TypeReflection

/-- How far a stretch of a header moved: by some bytes and some lines. -/
structure Shift where
  bytes : Nat
  lines : Nat
  deriving DecidableEq, Repr

/-- No move at all. -/
def Shift.none : Shift := ⟨0, 0⟩

/-- `t'` is `t` moved on by `δ`: the same kind and text, starting and ending `δ.bytes` bytes and
`δ.lines` lines further on. Its column is left open, since a move shifts only the columns of its
first line. -/
structure Token.Moved (δ : Shift) (t t' : Token) : Prop where
  kind : t'.kind = t.kind
  text : t'.text = t.text
  start : t'.span.start = t.span.start + δ.bytes
  stop : t'.span.stop = t.span.stop + δ.bytes
  line : t'.span.line = t.span.line + δ.lines

/-- The token moved on by `δ`, on its column. -/
def Token.moveBy (δ : Shift) (t : Token) : Token :=
  ⟨t.kind, t.text, ⟨t.span.start + δ.bytes, t.span.stop + δ.bytes, t.span.line + δ.lines,
    t.span.column⟩⟩

/-- A token moved on by `δ` stands moved by `δ`. -/
theorem Token.moved_moveBy (δ : Shift) (t : Token) : t.Moved δ (t.moveBy δ) :=
  ⟨rfl, rfl, rfl, rfl, rfl⟩

/-- A token stands moved by no shift from itself. -/
theorem Token.Moved.refl (t : Token) : t.Moved Shift.none t := ⟨rfl, rfl, rfl, rfl, rfl⟩

/-- Tokens in the same place: the same kind, text and span. -/
theorem Token.Moved.of_eq {t t' : Token} (h : t = t') : t.Moved Shift.none t' := h ▸ .refl t

/-- What the parser reads of a token apart from where it stands: its kind and text. -/
def Token.view (t : Token) : TokenKind × String := (t.kind, t.text)

/-- A moved token reads as the token it was moved from. -/
theorem Token.Moved.view {δ : Shift} {t t' : Token} (h : t.Moved δ t') : t'.view = t.view := by
  simp [Token.view, h.kind, h.text]

/-- The tokens of `source` stand, moved by `shift`, `offset` places further on in `target`, which
reads the same path and holds at least as many tokens; `source` ends with the end of input. -/
structure Relocation where
  source : ParseInput
  target : ParseInput
  offset : Nat
  shift : Shift
  path : target.path = source.path
  size : source.tokens.size ≤ target.tokens.size
  endsWithEof : source.EndsWithEof

namespace Relocation

variable (ρ : Relocation)

/-- The tokens of the source from `lo` to `hi` stand moved in the target, which reaches that far;
where the window reaches the last token of the source, the target ends as far on. -/
structure Window (lo hi : Nat) : Prop where
  within : hi + ρ.offset ≤ ρ.target.lastIndex
  ends : hi < ρ.source.lastIndex ∨ ρ.target.lastIndex = ρ.source.lastIndex + ρ.offset
  tokens : ∀ i, lo ≤ i → i ≤ hi → (ρ.source.tokenAt i).Moved ρ.shift (ρ.target.tokenAt (i + ρ.offset))

variable {ρ}

/-- A narrower stretch of a window is a window. -/
theorem Window.mono {lo hi lo' hi' : Nat} (h : ρ.Window lo hi) (hlo : lo ≤ lo') (hhi : hi' ≤ hi) :
    ρ.Window lo' hi' :=
  ⟨by have := h.within; omega, h.ends.imp (fun h' => by omega) id,
    fun i h₁ h₂ => h.tokens i (by omega) (by omega)⟩

/-- A token inside a window stands moved in the target. -/
theorem Window.token {lo hi : Nat} (h : ρ.Window lo hi) {i : Nat} (h₁ : lo ≤ i) (h₂ : i ≤ hi) :
    (ρ.source.tokenAt i).Moved ρ.shift (ρ.target.tokenAt (i + ρ.offset)) :=
  h.tokens i h₁ h₂

/-- Moving past a token of the window lands as far on in the target. -/
theorem Window.next {lo hi : Nat} (h : ρ.Window lo hi) {pos : Nat} (hpos : pos ≤ ρ.source.lastIndex)
    (hnext : ρ.source.next pos ≤ hi) : ρ.target.next (pos + ρ.offset) = ρ.source.next pos + ρ.offset := by
  have := h.within
  unfold ParseInput.next at hnext ⊢
  by_cases hlt : pos < ρ.source.lastIndex
  · rw [if_pos hlt] at hnext ⊢
    rw [if_pos (by omega)]
    omega
  · -- the cursor stays on the last token of the source, so the window reaches it
    rw [if_neg hlt] at hnext ⊢
    rcases h.ends with h' | h'
    · omega
    · rw [if_neg (by omega)]

/-- Moving the cursor to `i` lands as far on in the target, clamped alike. -/
theorem Window.seek {lo hi : Nat} (h : ρ.Window lo hi) (i : Nat)
    (hi' : min i ρ.source.lastIndex ≤ hi) :
    min (i + ρ.offset) ρ.target.lastIndex = min i ρ.source.lastIndex + ρ.offset := by
  have := h.within
  rcases h.ends with h' | h' <;> omega

end Relocation

namespace Parser

variable {α β γ δ' : Type}

/-- Outcomes that are both failures, or both successes with values related by `R`. -/
def OutcomeRel (R : α → β → Prop) : Except ParseError α → Except ParseError β → Prop
  | .ok a, .ok b => R a b
  | .error _, .error _ => True
  | _, _ => False

end Parser

namespace Relocation

open TypeReflection.Parser

variable {α β γ δ' : Type} (ρ : Relocation)

/-- The target run of `q` follows the source run of `p` from the cursor `start`: the source run
keeps the cursor on a token and never moves it back, and from a cursor `offset` places further
on, wherever the source run reads tokens that stand moved in the target, the target run ends
`offset` places further on, failing where `p` fails and otherwise with a value related by
`R`. -/
def SimAt (start : Nat) (R : α → β → Prop) (p : Parser α) (q : Parser β) : Prop :=
  ∀ s : ParseState, s.pos = start → s.pos ≤ ρ.source.lastIndex →
    (s.pos ≤ (p.runOn ρ.source s).2.pos ∧ (p.runOn ρ.source s).2.pos ≤ ρ.source.lastIndex) ∧
    ∀ t : ParseState, t.pos = s.pos + ρ.offset → ρ.Window s.pos (p.runOn ρ.source s).2.pos →
      (q.runOn ρ.target t).2.pos = (p.runOn ρ.source s).2.pos + ρ.offset ∧
        OutcomeRel R (p.runOn ρ.source s).1 (q.runOn ρ.target t).1

/-- The target run of `q` follows the source run of `p` from every cursor. -/
def Sim (R : α → β → Prop) (p : Parser α) (q : Parser β) : Prop :=
  ∀ start, ρ.SimAt start R p q

variable {ρ}

namespace SimAt

/-- A step that reads nothing and leaves the cursor where it is, with related values. -/
theorem of_stay {start : Nat} {p : Parser α} {q : Parser β} {R : α → β → Prop}
    (hp : ∀ s, (p.runOn ρ.source s).2.pos = s.pos) (hq : ∀ t, (q.runOn ρ.target t).2.pos = t.pos)
    (hr : ∀ s t, OutcomeRel R (p.runOn ρ.source s).1 (q.runOn ρ.target t).1) :
    ρ.SimAt start R p q :=
  fun s _ hs => ⟨by rw [hp]; exact ⟨Nat.le_refl _, hs⟩, fun t ht _ => ⟨by rw [hq, hp, ht], hr s t⟩⟩

/-- A bind follows from its first step and from every pair of related results. -/
theorem bind {start : Nat} {RA : α → β → Prop} {RB : γ → δ' → Prop} {p : Parser α}
    {q : Parser β} {f : α → Parser γ} {g : β → Parser δ'} (hp : ρ.SimAt start RA p q)
    (htot : ∀ a, ∃ b, RA a b) (hf : ∀ a b, RA a b → ρ.Sim RB (f a) (g b)) :
    ρ.SimAt start RB (p >>= f) (q >>= g) := by
  intro s hstart hs
  obtain ⟨⟨h₁, h₂⟩, hrel₁⟩ := hp s hstart hs
  rw [runOn_bind]
  rcases hrun : p.runOn ρ.source s with ⟨_ | a, s₁⟩ <;> rw [hrun] at h₁ h₂ hrel₁
  · -- the first step fails: the window is what it read
    refine ⟨⟨h₁, h₂⟩, fun t ht hw => ?_⟩
    obtain ⟨hpos, hrel⟩ := hrel₁ t ht hw
    rw [runOn_bind]
    rcases hq : q.runOn ρ.target t with ⟨_ | b, t₁⟩ <;> rw [hq] at hpos hrel
    · exact ⟨hpos, trivial⟩
    · exact hrel.elim
  · -- the first step succeeds: its window is the front of the whole one
    obtain ⟨b₀, hab₀⟩ := htot a
    obtain ⟨⟨h₃, h₄⟩, -⟩ := hf a b₀ hab₀ s₁.pos s₁ rfl h₂
    refine ⟨⟨Nat.le_trans h₁ h₃, h₄⟩, fun t ht hw => ?_⟩
    obtain ⟨hpos, hrel⟩ := hrel₁ t ht (hw.mono (Nat.le_refl _) h₃)
    rw [runOn_bind]
    rcases hq : q.runOn ρ.target t with ⟨_ | b, t₁⟩ <;> rw [hq] at hpos hrel
    · exact hrel.elim
    · exact (hf a b hrel s₁.pos s₁ rfl h₂).2 t₁ hpos (hw.mono h₁ (Nat.le_refl _))

/-- A `tryCatch` follows from its step and from its handlers. -/
theorem tryCatch {start : Nat} {R : α → β → Prop} {p : Parser α} {q : Parser β}
    {h : ParseError → Parser α} {h' : ParseError → Parser β} (hp : ρ.SimAt start R p q)
    (hh : ∀ e e', ρ.Sim R (h e) (h' e')) :
    ρ.SimAt start R (MonadExcept.tryCatch p h) (MonadExcept.tryCatch q h') := by
  intro s hstart hs
  obtain ⟨⟨h₁, h₂⟩, hrel₁⟩ := hp s hstart hs
  rw [runOn_tryCatch]
  rcases hrun : p.runOn ρ.source s with ⟨e | a, s₁⟩ <;> rw [hrun] at h₁ h₂ hrel₁
  · -- the handler goes on from where the failed step left
    obtain ⟨⟨h₃, h₄⟩, -⟩ := hh e e s₁.pos s₁ rfl h₂
    refine ⟨⟨Nat.le_trans h₁ h₃, h₄⟩, fun t ht hw => ?_⟩
    obtain ⟨hpos, hrel⟩ := hrel₁ t ht (hw.mono (Nat.le_refl _) h₃)
    rw [runOn_tryCatch]
    rcases hq : q.runOn ρ.target t with ⟨_ | b, t₁⟩ <;> rw [hq] at hpos hrel
    · exact (hh _ _ s₁.pos s₁ rfl h₂).2 t₁ hpos (hw.mono h₁ (Nat.le_refl _))
    · exact hrel.elim
  · refine ⟨⟨h₁, h₂⟩, fun t ht hw => ?_⟩
    obtain ⟨hpos, hrel⟩ := hrel₁ t ht hw
    rw [runOn_tryCatch]
    rcases hq : q.runOn ρ.target t with ⟨_ | b, t₁⟩ <;> rw [hq] at hpos hrel
    · exact hrel.elim
    · exact ⟨hpos, hrel⟩

/-- A choice follows when both branches follow. -/
theorem ite {start : Nat} {R : α → β → Prop} {c : Prop} {_ : Decidable c} {p p' : Parser α}
    {q q' : Parser β} (hp : ρ.SimAt start R p q) (hp' : ρ.SimAt start R p' q') :
    ρ.SimAt start R (if c then p else p') (if c then q else q') := by
  split
  · exact hp
  · exact hp'

/-- A step that reads its input first follows when what comes after follows for the two
inputs. -/
theorem read {start : Nat} {R : α → β → Prop} {f : ParseInput → Parser α}
    {g : ParseInput → Parser β} (h : ρ.SimAt start R (f ρ.source) (g ρ.target)) :
    ρ.SimAt start R ((MonadReader.read : Parser ParseInput) >>= f)
      ((MonadReader.read : Parser ParseInput) >>= g) := by
  intro s hstart hs
  rw [runOn_bind_of_ok _ _ (runOn_read _ _)]
  refine ⟨(h s hstart hs).1, fun t ht hw => ?_⟩
  rw [runOn_bind_of_ok _ _ (runOn_read _ _)]
  exact (h s hstart hs).2 t ht hw

/-- A step that follows with related results follows with any weaker relation. -/
theorem mono {start : Nat} {R R' : α → β → Prop} {p : Parser α} {q : Parser β}
    (h : ρ.SimAt start R p q) (hR : ∀ a b, R a b → R' a b) : ρ.SimAt start R' p q := by
  intro s hstart hs
  refine ⟨(h s hstart hs).1, fun t ht hw => ?_⟩
  obtain ⟨hpos, hrel⟩ := (h s hstart hs).2 t ht hw
  refine ⟨hpos, ?_⟩
  revert hrel
  cases (p.runOn ρ.source s).1 <;> cases (q.runOn ρ.target t).1 <;> simp only [OutcomeRel] <;>
    first | exact id | exact hR _ _

end SimAt

namespace Sim

/-- A step that reads nothing and leaves the cursor where it is, with related values. -/
theorem of_grows_stay {p : Parser α} {q : Parser β} {R : α → β → Prop}
    (hp : ∀ s, (p.runOn ρ.source s).2.pos = s.pos) (hq : ∀ t, (q.runOn ρ.target t).2.pos = t.pos)
    (hr : ∀ s t, OutcomeRel R (p.runOn ρ.source s).1 (q.runOn ρ.target t).1) : ρ.Sim R p q :=
  fun _ => .of_stay hp hq hr

/-- Steps that give related values follow each other. -/
theorem pure {R : α → β → Prop} {a : α} {b : β} (h : R a b) :
    ρ.Sim R (Pure.pure a : Parser α) (Pure.pure b : Parser β) :=
  .of_grows_stay (fun _ => rfl) (fun _ => rfl) fun _ _ => h

/-- Steps that both fail follow each other. -/
theorem throw {R : α → β → Prop} (e e' : ParseError) :
    ρ.Sim R (MonadExcept.throw e : Parser α) (MonadExcept.throw e' : Parser β) :=
  .of_grows_stay (fun _ => rfl) (fun _ => rfl) fun _ _ => trivial

/-- A bind follows from its first step and from every pair of related results. -/
theorem bind {RA : α → β → Prop} {RB : γ → δ' → Prop} {p : Parser α} {q : Parser β}
    {f : α → Parser γ} {g : β → Parser δ'} (hp : ρ.Sim RA p q) (htot : ∀ a, ∃ b, RA a b)
    (hf : ∀ a b, RA a b → ρ.Sim RB (f a) (g b)) : ρ.Sim RB (p >>= f) (q >>= g) :=
  fun start => (hp start).bind htot hf

/-- A `tryCatch` follows from its step and from its handlers. -/
theorem tryCatch {R : α → β → Prop} {p : Parser α} {q : Parser β} {h : ParseError → Parser α}
    {h' : ParseError → Parser β} (hp : ρ.Sim R p q) (hh : ∀ e e', ρ.Sim R (h e) (h' e')) :
    ρ.Sim R (MonadExcept.tryCatch p h) (MonadExcept.tryCatch q h') :=
  fun start => (hp start).tryCatch hh

/-- A choice follows when both branches follow. -/
theorem ite {R : α → β → Prop} {c : Prop} {_ : Decidable c} {p p' : Parser α} {q q' : Parser β}
    (hp : ρ.Sim R p q) (hp' : ρ.Sim R p' q') :
    ρ.Sim R (if c then p else p') (if c then q else q') :=
  fun start => (hp start).ite (hp' start)

/-- A step that follows with related results follows with any weaker relation. -/
theorem mono {R R' : α → β → Prop} {p : Parser α} {q : Parser β} (h : ρ.Sim R p q)
    (hR : ∀ a b, R a b → R' a b) : ρ.Sim R' p q :=
  fun start => (h start).mono hR

/-- A step that reads the cursor first follows when what comes after follows from each cursor,
with the target's cursor `offset` places further on. -/
theorem position {R : α → β → Prop} {f : Nat → Parser α} {g : Nat → Parser β}
    (h : ∀ start, ρ.SimAt start R (f start) (g (start + ρ.offset))) :
    ρ.Sim R (Parser.position >>= f) (Parser.position >>= g) := by
  intro start s hstart hs
  subst hstart
  rw [runOn_bind_of_ok _ _ (runOn_position _ _)]
  refine ⟨(h s.pos s rfl hs).1, fun t ht hw => ?_⟩
  rw [runOn_bind_of_ok _ _ (runOn_position _ _), ht]
  exact (h s.pos s rfl hs).2 t ht hw

end Sim

/-! ## The steps of the cursor -/

/-- The token at the cursor is read as the same token moved. -/
theorem current_sim : ρ.Sim (Token.Moved ρ.shift) current current := by
  intro start s _ hs
  simp only [runOn_current]
  exact ⟨⟨Nat.le_refl _, hs⟩, fun t ht hw => ⟨ht, by
    simpa [OutcomeRel, ht] using hw.token (Nat.le_refl _) (Nat.le_refl _)⟩⟩

/-- Checking the kind at the cursor gives the same answer in the target. -/
theorem check_sim (k : TokenKind) : ρ.Sim Eq (check k) (check k) := by
  intro start s _ hs
  simp only [runOn_check]
  exact ⟨⟨Nat.le_refl _, hs⟩, fun t ht hw => ⟨ht, by
    simp [OutcomeRel, ht, (hw.token (Nat.le_refl _) (Nat.le_refl _)).kind]⟩⟩

/-- Checking for the end of input gives the same answer in the target. -/
theorem atEnd_sim : ρ.Sim Eq atEnd atEnd := check_sim .eof

/-- Moving past a token reads the same token moved and moves as far. -/
theorem advance_sim : ρ.Sim (Token.Moved ρ.shift) advance advance := by
  intro start s _ hs
  simp only [runOn_advance]
  exact ⟨⟨ρ.source.le_next _, ρ.source.next_le_lastIndex hs⟩, fun t ht hw => ⟨by
    rw [ht]; exact hw.next hs (Nat.le_refl _), by
    simpa [OutcomeRel, ht] using hw.token (Nat.le_refl _) (ρ.source.le_next _)⟩⟩

/-- Eating a kind gives the same answer in the target and moves as far. -/
theorem eat_sim (k : TokenKind) : ρ.Sim Eq (eat k) (eat k) := by
  intro start s _ hs
  rw [runOn_eat]
  by_cases hk : (ρ.source.tokenAt s.pos).kind = k
  · rw [if_pos hk]
    refine ⟨⟨ρ.source.le_next _, ρ.source.next_le_lastIndex hs⟩, fun t ht hw => ?_⟩
    have hk' : (ρ.target.tokenAt t.pos).kind = k := by
      rw [ht, (hw.token (Nat.le_refl _) (ρ.source.le_next _)).kind, hk]
    rw [runOn_eat, if_pos hk']
    exact ⟨by rw [ht]; exact hw.next hs (Nat.le_refl _), rfl⟩
  · rw [if_neg hk]
    refine ⟨⟨Nat.le_refl _, hs⟩, fun t ht hw => ?_⟩
    have hk' : ¬(ρ.target.tokenAt t.pos).kind = k := by
      rw [ht, (hw.token (Nat.le_refl _) (Nat.le_refl _)).kind]
      exact hk
    rw [runOn_eat, if_neg hk']
    exact ⟨ht, rfl⟩

/-- A failure follows a failure. -/
theorem fail_sim {R : α → β → Prop} (expected expected' : String) :
    ρ.Sim R (fail expected : Parser α) (fail expected' : Parser β) :=
  .of_grows_stay (fun _ => rfl) (fun _ => rfl) fun _ _ => trivial

/-- Expecting a kind reads the same token moved and moves as far. -/
theorem expect_sim (k : TokenKind) : ρ.Sim (Token.Moved ρ.shift) (expect k) (expect k) := by
  intro start s _ hs
  rw [runOn_expect]
  by_cases hk : (ρ.source.tokenAt s.pos).kind = k
  · rw [if_pos hk]
    refine ⟨⟨ρ.source.le_next _, ρ.source.next_le_lastIndex hs⟩, fun t ht hw => ?_⟩
    have hm := hw.token (Nat.le_refl _) (ρ.source.le_next _)
    rw [runOn_expect, if_pos (by rw [ht, hm.kind, hk])]
    exact ⟨by rw [ht]; exact hw.next hs (Nat.le_refl _), by simpa [OutcomeRel, ht] using hm⟩
  · rw [if_neg hk]
    refine ⟨⟨Nat.le_refl _, hs⟩, fun t ht hw => ?_⟩
    have hm := hw.token (Nat.le_refl _) (Nat.le_refl _)
    rw [runOn_expect, if_neg (by rw [ht, hm.kind]; exact hk)]
    exact ⟨ht, trivial⟩

/-- Warnings, whatever their texts and places, leave the cursor alike. -/
theorem warn_sim (message message' : String) (span span' : Span) :
    ρ.Sim Eq (warn message span) (warn message' span') :=
  .of_grows_stay (fun _ => rfl) (fun _ => rfl) fun _ _ => rfl

/-- Reported errors, whatever they are, leave the cursor alike. -/
theorem report_sim (e e' : ParseError) : ρ.Sim Eq (report e) (report e') :=
  .of_grows_stay (fun _ => rfl) (fun _ => rfl) fun _ _ => rfl

/-- Moving the cursor forward to `i` from `start` moves it as far in the target. -/
theorem seek_simAt {start i : Nat} (h : start ≤ i) :
    ρ.SimAt start Eq (seek i) (seek (i + ρ.offset)) := by
  intro s hstart hs
  simp only [runOn_seek]
  exact ⟨⟨Nat.le_min.2 ⟨hstart ▸ h, hs⟩, Nat.min_le_right _ _⟩, fun t _ hw =>
    ⟨hw.seek i (Nat.le_refl _), rfl⟩⟩

/-- A loop given the rounds of its input follows when it follows for every number of rounds and
the source run does not depend on the rounds beyond its own: the target gives more. -/
theorem Sim.rounds {R : α → β → Prop} {f : Nat → Parser α} {g : Nat → Parser β}
    (h : ∀ n, ρ.Sim R (f n) (g n))
    (hfuel : ∀ s : ParseState, s.pos ≤ ρ.source.lastIndex →
      (f (ρ.source.tokens.size + 1)).runOn ρ.source s = (f (ρ.target.tokens.size + 1)).runOn ρ.source s) :
    ρ.Sim R (Parser.rounds >>= f) (Parser.rounds >>= g) := by
  intro start s hstart hs
  rw [runOn_bind_of_ok _ _ (runOn_rounds _ _), hfuel s hs]
  refine ⟨(h _ start s hstart hs).1, fun t ht hw => ?_⟩
  rw [runOn_bind_of_ok _ _ (runOn_rounds _ _)]
  exact (h _ start s hstart hs).2 t ht hw

end Relocation

end TypeReflection
