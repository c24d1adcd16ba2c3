import TypeReflection.Parse.File

/-!
# Running a parsing step

`Parser.runOn p input s` is what the parsing step `p` does when it reads `input` from the state
`s`: its outcome and the state it leaves, whether it failed or not. Its equations for `pure`,
`throw`, binds and `tryCatch` let a proof follow a `do` block one step at a time, and each
primitive of the cursor has the equation of what it does.

Two facts hold of every parsing step; here they are proved for the primitives and carried
through the ways steps are put together.

* `Grows`: from a cursor on a token, the cursor stays on a token and never moves back, and the
  reports made before are kept.
* `Oblivious`: the reports made before never change what a step does. Its outcome, its moves and
  its own reports are those of the same step run with nothing reported, added after the earlier
  reports.
-/

set_option autoImplicit false

namespace TypeReflection

namespace Diagnostics

/-- The reports of `d` followed by those of `d'`. -/
def append (d d' : Diagnostics) : Diagnostics :=
  ⟨d.errors ++ d'.errors, d.warnings ++ d'.warnings⟩

/-- The errors of two report lists put together are the first's followed by the second's. -/
@[simp] theorem append_errors (d d' : Diagnostics) : (d.append d').errors = d.errors ++ d'.errors :=
  rfl

/-- The warnings of two report lists put together are the first's followed by the second's. -/
@[simp] theorem append_warnings (d d' : Diagnostics) :
    (d.append d').warnings = d.warnings ++ d'.warnings := rfl

/-- Nothing reported before changes no report list. -/
@[simp] theorem empty_append (d : Diagnostics) : empty.append d = d := by
  simp [append, empty]

/-- Nothing reported after changes no report list. -/
@[simp] theorem append_empty (d : Diagnostics) : d.append empty = d := by
  simp [append, empty]

/-- Putting report lists together does not depend on the grouping. -/
theorem append_assoc (d₁ d₂ d₃ : Diagnostics) :
    (d₁.append d₂).append d₃ = d₁.append (d₂.append d₃) := by
  simp [append, Array.append_assoc]

/-- `d'` keeps the reports of `d`, each list in its order, and may add more after them. -/
structure Extends (d d' : Diagnostics) : Prop where
  errors : d.errors.toList <+: d'.errors.toList
  warnings : d.warnings.toList <+: d'.warnings.toList

/-- A report list keeps its own reports. -/
theorem Extends.refl (d : Diagnostics) : d.Extends d :=
  ⟨List.prefix_refl _, List.prefix_refl _⟩

/-- Keeping reports is transitive. -/
theorem Extends.trans {d₁ d₂ d₃ : Diagnostics} (h₁ : d₁.Extends d₂) (h₂ : d₂.Extends d₃) :
    d₁.Extends d₃ :=
  ⟨h₁.errors.trans h₂.errors, h₁.warnings.trans h₂.warnings⟩

/-- Reports added after keep those made before. -/
theorem extends_append (d d' : Diagnostics) : d.Extends (d.append d') := by
  constructor <;> simp

end Diagnostics

/-- The state `s` with the reports `d` made before its own. -/
def ParseState.after (d : Diagnostics) (s : ParseState) : ParseState :=
  ⟨s.pos, d.append s.diagnostics⟩

/-- Reports made before leave the cursor where it is. -/
@[simp] theorem ParseState.after_pos (d : Diagnostics) (s : ParseState) : (s.after d).pos = s.pos :=
  rfl

/-- The reports of a state with reports made before are those followed by its own. -/
@[simp] theorem ParseState.after_diagnostics (d : Diagnostics) (s : ParseState) :
    (s.after d).diagnostics = d.append s.diagnostics := rfl

/-- `s'` is a state that parsing may leave from `s`: the cursor has not moved back and stands on
a token, and the reports of `s` are kept. -/
structure ParseState.Advances (input : ParseInput) (s s' : ParseState) : Prop where
  pos_le : s.pos ≤ s'.pos
  le_last : s'.pos ≤ input.lastIndex
  reports : s.diagnostics.Extends s'.diagnostics

namespace ParseState.Advances

variable {input : ParseInput}

/-- A state on a token is one that parsing may leave from itself. -/
theorem refl {s : ParseState} (h : s.pos ≤ input.lastIndex) : s.Advances input s :=
  ⟨Nat.le_refl _, h, .refl _⟩

/-- States that parsing may leave, one after another, are ones it may leave from the first. -/
theorem trans {s₁ s₂ s₃ : ParseState} (h₁ : s₁.Advances input s₂) (h₂ : s₂.Advances input s₃) :
    s₁.Advances input s₃ :=
  ⟨Nat.le_trans h₁.pos_le h₂.pos_le, h₂.le_last, h₁.reports.trans h₂.reports⟩

end ParseState.Advances

namespace ParseInput

/-- The last token is the end of input. -/
def EndsWithEof (input : ParseInput) : Prop := (input.tokenAt input.lastIndex).kind = .eof

/-- Past the last token, the cursor reads the last token. -/
theorem tokenAt_of_lastIndex_le (input : ParseInput) {i : Nat} (h : input.lastIndex ≤ i) :
    input.tokenAt i = input.tokenAt input.lastIndex := by
  simp [tokenAt, Nat.min_eq_right h]

/-- Only the last token can be the end of input, so any other stands before it. -/
theorem lt_lastIndex_of_ne_eof {input : ParseInput} (h : input.EndsWithEof) {i : Nat}
    (hi : (input.tokenAt i).kind ≠ .eof) : i < input.lastIndex := by
  refine Nat.lt_of_not_le fun hle => hi ?_
  rw [input.tokenAt_of_lastIndex_le hle]
  exact h

/-- The cursor after moving past the token at `pos`; it stays put on the last token. -/
def next (input : ParseInput) (pos : Nat) : Nat :=
  if pos < input.lastIndex then pos + 1 else pos

/-- Moving on from a token stays on a token. -/
theorem next_le_lastIndex (input : ParseInput) {pos : Nat} (h : pos ≤ input.lastIndex) :
    input.next pos ≤ input.lastIndex := by
  unfold next
  split <;> omega

/-- Moving on never goes back. -/
theorem le_next (input : ParseInput) (pos : Nat) : pos ≤ input.next pos := by
  unfold next
  split <;> omega

/-- Off the last token, moving on goes to the next index. -/
theorem next_of_lt {input : ParseInput} {pos : Nat} (h : pos < input.lastIndex) :
    input.next pos = pos + 1 := if_pos h

end ParseInput

namespace Parser

variable {α β : Type}

/-- The run of the parsing step `p` on `input` from the state `s`: its outcome and the state
it leaves. -/
def runOn (p : Parser α) (input : ParseInput) (s : ParseState) :
    Except ParseError α × ParseState :=
  (p input).run s

section Equations

variable (input : ParseInput) (s : ParseState)

/-- A `pure` step gives its value and leaves the state. -/
@[simp] theorem runOn_pure (a : α) : (pure a : Parser α).runOn input s = (.ok a, s) := rfl

/-- A `throw` step fails with its error and leaves the state. -/
@[simp] theorem runOn_throw (e : ParseError) : (throw e : Parser α).runOn input s = (.error e, s) :=
  rfl

/-- A bind runs its first step and, if that succeeds, the rest from the state it left. -/
theorem runOn_bind (p : Parser α) (f : α → Parser β) :
    (p >>= f).runOn input s = match p.runOn input s with
      | (.ok a, s') => (f a).runOn input s'
      | (.error e, s') => (.error e, s') := by
  unfold runOn
  change StateT.run (ExceptT.run (p input >>= fun a => f a input)) s = _
  rw [ExceptT.run_bind, StateT.run_bind]
  have hr : StateT.run (ExceptT.run (p input)) s = (p input).run s := rfl
  rw [hr]
  rcases (p input).run s with ⟨_ | a, s'⟩ <;> rfl

/-- A `tryCatch` keeps a success and hands a failure, with the state it left, to the handler. -/
theorem runOn_tryCatch (p : Parser α) (h : ParseError → Parser α) :
    (tryCatch p h).runOn input s = match p.runOn input s with
      | (.ok a, s') => (.ok a, s')
      | (.error e, s') => (h e).runOn input s' := by
  unfold runOn
  simp only [tryCatch, tryCatchThe, MonadExceptOf.tryCatch, ExceptT.tryCatch, ExceptT.run,
    ExceptT.mk]
  change StateT.run (p input >>= _) s = _
  rw [StateT.run_bind]
  have hr : StateT.run (p input) s = p input s := rfl
  rw [hr]
  rcases p input s with ⟨_ | a, s'⟩ <;> rfl

/-- A bind whose first step succeeds goes on from where that step left. -/
theorem runOn_bind_of_ok {p : Parser α} {f : α → Parser β} {a : α} {s' : ParseState}
    (h : p.runOn input s = (.ok a, s')) : (p >>= f).runOn input s = (f a).runOn input s' := by
  rw [runOn_bind, h]

/-- A bind whose first step fails fails with it. -/
theorem runOn_bind_of_error {p : Parser α} {f : α → Parser β} {e : ParseError} {s' : ParseState}
    (h : p.runOn input s = (.error e, s')) : (p >>= f).runOn input s = (.error e, s') := by
  rw [runOn_bind, h]

/-- A run whose result is known to succeed, for evaluating runs on given tokens: the outcome is
compared through `toOption`, whose equality is decidable. -/
theorem runOn_eq_of_toOption {p : Parser α} {a : α} (h : (p.runOn input s).1.toOption = some a) :
    p.runOn input s = (.ok a, (p.runOn input s).2) := by
  rcases hp : p.runOn input s with ⟨_ | b, s'⟩
  · simp [hp, Except.toOption] at h
  · simp only [hp, Except.toOption, Option.some.injEq] at h
    rw [h]

/-- Reading the input gives it and leaves the state. -/
@[simp] theorem runOn_read : (read : Parser ParseInput).runOn input s = (.ok input, s) := rfl

/-- `position` gives the cursor. -/
@[simp] theorem runOn_position : position.runOn input s = (.ok s.pos, s) := rfl

/-- `current` gives the token at the cursor. -/
@[simp] theorem runOn_current : current.runOn input s = (.ok (input.tokenAt s.pos), s) := rfl

/-- `tokenAt i` gives the token at `i`, the last one past the end. -/
@[simp] theorem runOn_tokenAt (i : Nat) : (tokenAt i).runOn input s = (.ok (input.tokenAt i), s) :=
  rfl

/-- `path` gives the header's path. -/
@[simp] theorem runOn_path : path.runOn input s = (.ok input.path, s) := rfl

/-- `rounds` gives one more than the number of tokens, a bound on any loop over them. -/
@[simp] theorem runOn_rounds : rounds.runOn input s = (.ok (input.tokens.size + 1), s) := rfl

/-- `seek i` moves the cursor to `i`, or to the last token past the end. -/
@[simp] theorem runOn_seek (i : Nat) :
    (seek i).runOn input s = (.ok (), { s with pos := min i input.lastIndex }) := rfl

/-- `advance` gives the token at the cursor and moves past it. -/
@[simp] theorem runOn_advance :
    advance.runOn input s = (.ok (input.tokenAt s.pos), { s with pos := input.next s.pos }) := rfl

/-- `check k` tells whether the token at the cursor is of kind `k`, and does not move. -/
@[simp] theorem runOn_check (k : TokenKind) :
    (check k).runOn input s = (.ok ((input.tokenAt s.pos).kind == k), s) := rfl

/-- `atEnd` tells whether the cursor is on the end of input. -/
@[simp] theorem runOn_atEnd : atEnd.runOn input s = (.ok ((input.tokenAt s.pos).kind == .eof), s) :=
  rfl

/-- `eat k` moves past a token of kind `k` and says so, and otherwise stays and says not. -/
theorem runOn_eat (k : TokenKind) : (eat k).runOn input s =
    if (input.tokenAt s.pos).kind = k then (.ok true, { s with pos := input.next s.pos })
    else (.ok false, s) := by
  unfold eat
  rw [runOn_bind, runOn_check]
  by_cases h : (input.tokenAt s.pos).kind = k <;> simp [h] <;> rfl

/-- `unexpected` builds the error for the token at the cursor, without failing. -/
@[simp] theorem runOn_unexpected (expected : String) :
    (unexpected expected).runOn input s =
      (.ok (ParseError.unexpected expected (input.tokenAt s.pos) input.path), s) := rfl

/-- `fail` fails with the error for the token at the cursor. -/
@[simp] theorem runOn_fail (expected : String) :
    (fail expected : Parser α).runOn input s =
      (.error (ParseError.unexpected expected (input.tokenAt s.pos) input.path), s) := rfl

/-- `expect k` moves past a token of kind `k` and gives it, and otherwise fails there. -/
theorem runOn_expect (k : TokenKind) : (expect k).runOn input s =
    if (input.tokenAt s.pos).kind = k then
      (.ok (input.tokenAt s.pos), { s with pos := input.next s.pos })
    else (.error (ParseError.unexpected k.describe (input.tokenAt s.pos) input.path), s) := by
  unfold expect
  rw [runOn_bind, runOn_check]
  by_cases h : (input.tokenAt s.pos).kind = k <;> simp [h] <;> rfl

/-- `warn` adds a warning at the given place in this header. -/
@[simp] theorem runOn_warn (message : String) (span : Span) :
    (warn message span).runOn input s =
      (.ok (), { s with
        diagnostics.warnings := s.diagnostics.warnings.push ⟨message, span, input.path⟩ }) := rfl

/-- `report` adds an error and goes on. -/
@[simp] theorem runOn_report (e : ParseError) :
    (report e).runOn input s =
      (.ok (), { s with diagnostics.errors := s.diagnostics.errors.push e }) := rfl

end Equations

/-! ### Steps that move forward and keep what was reported -/

/-- From a cursor on a token, `p` leaves the cursor on a token, never further back, and keeps
what was reported. -/
def Grows (p : Parser α) : Prop :=
  ∀ (input : ParseInput) (s : ParseState), s.pos ≤ input.lastIndex →
    s.Advances input (p.runOn input s).2

namespace Grows

/-- A `pure` step moves nothing and reports nothing. -/
theorem pure (a : α) : Grows (Pure.pure a : Parser α) := fun _ _ h => .refl h

/-- A `throw` step moves nothing and reports nothing. -/
theorem throw (e : ParseError) : Grows (MonadExcept.throw e : Parser α) := fun _ _ h => .refl h

/-- A bind of steps that move forward and keep reports does so too. -/
theorem bind {p : Parser α} {f : α → Parser β} (hp : Grows p) (hf : ∀ a, Grows (f a)) :
    Grows (p >>= f) := by
  intro input s hs
  have h₁ := hp input s hs
  rw [runOn_bind]
  rcases hrun : p.runOn input s with ⟨_ | a, s'⟩
  · rw [hrun] at h₁
    exact h₁
  · rw [hrun] at h₁
    exact h₁.trans (hf a input s' h₁.le_last)

/-- A `tryCatch` of steps that move forward and keep reports does so too. -/
theorem tryCatch {p : Parser α} {h : ParseError → Parser α} (hp : Grows p)
    (hh : ∀ e, Grows (h e)) : Grows (tryCatch p h) := by
  intro input s hs
  have h₁ := hp input s hs
  rw [runOn_tryCatch]
  rcases hrun : p.runOn input s with ⟨_ | a, s'⟩
  · rw [hrun] at h₁
    exact h₁.trans (hh _ input s' h₁.le_last)
  · rw [hrun] at h₁
    exact h₁

/-- A choice between steps that move forward and keep reports does so too. -/
theorem ite {c : Prop} {_ : Decidable c} {p q : Parser α} (hp : Grows p) (hq : Grows q) :
    Grows (if c then p else q) := by
  split
  · exact hp
  · exact hq

end Grows

/-- What `Grows` says of one run. -/
theorem Grows.advances {p : Parser α} (hp : Grows p) {input : ParseInput} {s s' : ParseState}
    {r : Except ParseError α} (hs : s.pos ≤ input.lastIndex) (h : p.runOn input s = (r, s')) :
    s.Advances input s' := by
  have := hp input s hs
  rwa [h] at this

/-- A step that leaves the state as it is moves forward and keeps reports. -/
theorem Grows.of_state {p : Parser α} (h : ∀ input s, (p.runOn input s).2 = s) : Grows p := by
  intro input s hs
  rw [h]
  exact .refl hs

/-- Reading the input leaves the state. -/
theorem read_grows : Grows (read : Parser ParseInput) := .of_state fun _ _ => rfl

/-- `position` leaves the state. -/
theorem position_grows : Grows position := .of_state fun _ _ => rfl

/-- `current` leaves the state. -/
theorem current_grows : Grows current := .of_state fun _ _ => rfl

/-- `check` leaves the state. -/
theorem check_grows (k : TokenKind) : Grows (check k) := .of_state fun _ _ => rfl

/-- `fail` leaves the state. -/
theorem fail_grows (expected : String) : Grows (fail expected : Parser α) :=
  .of_state fun _ _ => rfl

/-- `advance` moves forward and stays on a token. -/
theorem advance_grows : Grows advance := by
  intro input s hs
  exact ⟨input.le_next s.pos, input.next_le_lastIndex hs, .refl _⟩

/-- `eat` moves forward and stays on a token. -/
theorem eat_grows (k : TokenKind) : Grows (eat k) := by
  intro input s hs
  rw [runOn_eat]
  split
  · exact ⟨input.le_next s.pos, input.next_le_lastIndex hs, .refl _⟩
  · exact .refl hs

/-- `expect` moves forward and stays on a token. -/
theorem expect_grows (k : TokenKind) : Grows (expect k) := by
  intro input s hs
  rw [runOn_expect]
  split
  · exact ⟨input.le_next s.pos, input.next_le_lastIndex hs, .refl _⟩
  · exact .refl hs

/-- Moving the cursor to a token no earlier than it stands. -/
theorem seek_advances {input : ParseInput} {s : ParseState} {i : Nat} (hs : s.pos ≤ input.lastIndex)
    (hi : s.pos ≤ i) : s.Advances input ((seek i).runOn input s).2 :=
  ⟨by simp only [runOn_seek]; omega, by simp only [runOn_seek]; omega, .refl _⟩

/-- `warn` only adds a warning. -/
theorem warn_grows (message : String) (span : Span) : Grows (warn message span) := by
  intro input s hs
  refine ⟨Nat.le_refl _, hs, ⟨List.prefix_refl _, ?_⟩⟩
  simp

/-- `report` only adds an error. -/
theorem report_grows (e : ParseError) : Grows (report e) := by
  intro input s hs
  refine ⟨Nat.le_refl _, hs, ⟨?_, List.prefix_refl _⟩⟩
  simp

/-! ### Steps that do not look at what was reported -/

/-- What `p` does never depends on what was reported before it: from any reports it has the
outcome and moves of its run with nothing reported, and adds that run's reports after them. -/
def Oblivious (p : Parser α) : Prop :=
  ∀ (input : ParseInput) (pos : Nat) (d : Diagnostics), p.runOn input ⟨pos, d⟩ =
    ((p.runOn input ⟨pos, .empty⟩).1, (p.runOn input ⟨pos, .empty⟩).2.after d)

/-- The form of `Oblivious` for a state given whole. -/
theorem Oblivious.runOn_eq {p : Parser α} (hp : Oblivious p) (input : ParseInput)
    (s : ParseState) : p.runOn input s =
      ((p.runOn input ⟨s.pos, .empty⟩).1, (p.runOn input ⟨s.pos, .empty⟩).2.after s.diagnostics) :=
  hp input s.pos s.diagnostics

namespace Oblivious

/-- A `pure` step does not look at the reports. -/
theorem pure (a : α) : Oblivious (Pure.pure a : Parser α) := by
  intro input pos d
  simp [ParseState.after]

/-- A `throw` step does not look at the reports. -/
theorem throw (e : ParseError) : Oblivious (MonadExcept.throw e : Parser α) := by
  intro input pos d
  simp [ParseState.after]

/-- A bind of steps that do not look at the reports does not either. -/
theorem bind {p : Parser α} {f : α → Parser β} (hp : Oblivious p) (hf : ∀ a, Oblivious (f a)) :
    Oblivious (p >>= f) := by
  intro input pos d
  rw [runOn_bind, runOn_bind, hp input pos d]
  rcases p.runOn input ⟨pos, .empty⟩ with ⟨_ | a, s'⟩
  · rfl
  · -- both runs go on with `f a` from the same cursor; their reports differ by `d` in front
    simp only [ParseState.after]
    rw [hf a input s'.pos (d.append s'.diagnostics), hf a input s'.pos s'.diagnostics]
    simp [ParseState.after, Diagnostics.append_assoc]

/-- A `tryCatch` of steps that do not look at the reports does not either. -/
theorem tryCatch {p : Parser α} {h : ParseError → Parser α} (hp : Oblivious p)
    (hh : ∀ e, Oblivious (h e)) : Oblivious (tryCatch p h) := by
  intro input pos d
  rw [runOn_tryCatch, runOn_tryCatch, hp input pos d]
  rcases p.runOn input ⟨pos, .empty⟩ with ⟨_ | a, s'⟩
  · -- the handler goes on from where the failed step left, in both runs
    simp only [ParseState.after]
    rw [hh _ input s'.pos (d.append s'.diagnostics), hh _ input s'.pos s'.diagnostics]
    simp [ParseState.after, Diagnostics.append_assoc]
  · rfl

/-- A choice between steps that do not look at the reports does not either. -/
theorem ite {c : Prop} {_ : Decidable c} {p q : Parser α} (hp : Oblivious p) (hq : Oblivious q) :
    Oblivious (if c then p else q) := by
  split
  · exact hp
  · exact hq

/-- A step that only reads and moves the cursor. -/
theorem of_pos {p : Parser α} (r : ParseInput → Nat → Except ParseError α)
    (move : ParseInput → Nat → Nat) (h : ∀ input s, p.runOn input s = (r input s.pos, { s with pos := move input s.pos })) :
    Oblivious p := by
  intro input pos d
  rw [h, h]
  simp [ParseState.after]

end Oblivious

/-- Reading the input does not look at the reports. -/
theorem read_oblivious : Oblivious (read : Parser ParseInput) :=
  .of_pos (fun input _ => .ok input) (fun _ pos => pos) fun _ _ => rfl

/-- `position` does not look at the reports. -/
theorem position_oblivious : Oblivious position :=
  .of_pos (fun _ pos => .ok pos) (fun _ pos => pos) fun _ _ => rfl

/-- `current` does not look at the reports. -/
theorem current_oblivious : Oblivious current :=
  .of_pos (fun input pos => .ok (input.tokenAt pos)) (fun _ pos => pos) fun _ _ => rfl

/-- `check` does not look at the reports. -/
theorem check_oblivious (k : TokenKind) : Oblivious (check k) :=
  .of_pos (fun input pos => .ok ((input.tokenAt pos).kind == k)) (fun _ pos => pos) fun _ _ => rfl

/-- `rounds` does not look at the reports. -/
theorem rounds_oblivious : Oblivious rounds :=
  .of_pos (fun input _ => .ok (input.tokens.size + 1)) (fun _ pos => pos) fun _ _ => rfl

/-- `seek` does not look at the reports. -/
theorem seek_oblivious (i : Nat) : Oblivious (seek i) :=
  .of_pos (fun _ _ => .ok ()) (fun input _ => min i input.lastIndex) fun _ _ => rfl

/-- `advance` does not look at the reports. -/
theorem advance_oblivious : Oblivious advance :=
  .of_pos (fun input pos => .ok (input.tokenAt pos)) (fun input pos => input.next pos)
    fun _ _ => rfl

/-- `fail` does not look at the reports. -/
theorem fail_oblivious (expected : String) : Oblivious (fail expected : Parser α) :=
  .of_pos (fun input pos => .error (ParseError.unexpected expected (input.tokenAt pos) input.path))
    (fun _ pos => pos) fun _ _ => rfl

/-- `eat` does not look at the reports. -/
theorem eat_oblivious (k : TokenKind) : Oblivious (eat k) :=
  (check_oblivious k).bind fun _ =>
    .ite (advance_oblivious.bind fun _ => .pure _) (.pure _)

/-- `expect` does not look at the reports. -/
theorem expect_oblivious (k : TokenKind) : Oblivious (expect k) :=
  (check_oblivious k).bind fun _ => .ite advance_oblivious (fail_oblivious _)

/-- `warn` adds its warning after whatever was reported. -/
theorem warn_oblivious (message : String) (span : Span) : Oblivious (warn message span) := by
  intro input pos d
  simp [ParseState.after, Diagnostics.append, Diagnostics.empty]

/-- `report` adds its error after whatever was reported. -/
theorem report_oblivious (e : ParseError) : Oblivious (report e) := by
  intro input pos d
  simp [ParseState.after, Diagnostics.append, Diagnostics.empty]

end Parser

end TypeReflection
