import TypeReflection.Proofs.Parse.Run

/-!
# Every parsing step moves forward

Each step of the parser, from the decorator lists to a whole header, leaves the cursor on a
token no earlier than where it started and keeps what was reported (`Grows`), and does the same
whatever was reported before it (`Oblivious`). Most steps are built from others by binds and
branches and inherit both facts from their parts. The member parsers, `baseList`, `recordName`
and `enumDecl` move the cursor to where a scan stopped; their proofs use that every scan stops at
or after the index it starts from (`le_index_scanTo` and its siblings).
-/

set_option autoImplicit false

namespace TypeReflection

namespace Scan

/-- The index of the token a scan stopped on. -/
def Stop.index : Stop → Nat
  | .found i => i
  | .cut i => i

/-- A scan that found its target stopped at its index. -/
@[simp] theorem Stop.index_found (i : Nat) : (Stop.found i).index = i := rfl

/-- A scan cut short stopped at its index. -/
@[simp] theorem Stop.index_cut (i : Nat) : (Stop.cut i).index = i := rfl

/-- A scan to a target stops at or after where it starts. -/
theorem le_index_scanTo (target : TokenKind) (stops : TokenKind → Bool) (ts : List Token)
    (i : Nat) : i ≤ (scanTo target stops ts i).index := by
  induction ts generalizing i with
  | nil => simp [scanTo]
  | cons t ts ih =>
    simp only [scanTo]
    split
    · simp
    · split
      · simp
      · exact Nat.le_of_succ_le (ih (i + 1))

/-- The scan for the end of a property stops at or after where it starts. -/
theorem le_index_scanProperty (ts : List Token) (i depth : Nat) (boundary : Option Nat) :
    i ≤ (scanProperty ts i depth boundary).1.index := by
  induction ts generalizing i depth boundary with
  | nil => simp [scanProperty]
  | cons t ts ih =>
    simp only [scanProperty]
    split <;> (try split) <;> first | simp | exact Nat.le_of_succ_le (ih _ _ _)

/-- The scan for the end of a method stops at or after where it starts. -/
theorem le_index_scanMethod (ts : List Token) (i depth : Nat) :
    i ≤ (scanMethod ts i depth).index := by
  induction ts generalizing i depth with
  | nil => simp [scanMethod]
  | cons t ts ih =>
    simp only [scanMethod]
    split <;> (try split) <;> first | simp | exact Nat.le_of_succ_le (ih _ _)

/-- The scan past a brace group stops at or after where it starts. -/
theorem le_index_scanBraces (ts : List Token) (i depth : Nat) :
    i ≤ (scanBraces ts i depth).index := by
  induction ts generalizing i depth with
  | nil => simp [scanBraces]
  | cons t ts ih =>
    simp only [scanBraces]
    split <;> (try split) <;> first | simp | exact Nat.le_of_succ_le (ih _ _)

end Scan

namespace Parser

open Scan

variable {α β : Type}

/-- The scan of base classes stops at or after where it starts. -/
theorem le_index_scanBases (ts : List Token) (i depth : Nat) (current : List Token)
    (parents : List String) : i ≤ (scanBases ts i depth current parents).1.index := by
  induction ts generalizing i depth current parents with
  | nil => simp [scanBases]
  | cons t ts ih =>
    simp only [scanBases]
    split <;> (try split) <;> first | simp | exact Nat.le_of_succ_le (ih _ _ _ _)

/-! ### Moving forward -/

/-- A bind moves forward from `s` when its first step does and every way to go on moves
forward. -/
theorem advances_bind {input : ParseInput} {s : ParseState} {p : Parser α} {f : α → Parser β}
    (h : s.Advances input (p.runOn input s).2) (hf : ∀ a, Grows (f a)) :
    s.Advances input ((p >>= f).runOn input s).2 := by
  rw [runOn_bind]
  rcases hrun : p.runOn input s with ⟨_ | a, s'⟩
  · rw [hrun] at h
    exact h
  · rw [hrun] at h
    exact h.trans (hf a input s' h.le_last)

/-- `rounds` leaves the state. -/
theorem rounds_grows : Grows rounds := .of_state fun _ _ => rfl

/-- A step that reads the cursor's index first moves forward if what follows does so from
that index. -/
theorem Grows.position_bind {f : Nat → Parser β}
    (hf : ∀ (input : ParseInput) (s : ParseState), s.pos ≤ input.lastIndex →
      s.Advances input ((f s.pos).runOn input s).2) :
    Grows (position >>= f) := by
  intro input s hs
  rw [runOn_bind_of_ok _ _ (runOn_position _ _)]
  exact hf input s hs

/-- Skipping a float suffix moves forward and keeps what was reported. -/
theorem skipFloatSuffix_grows (numberEnd : Nat) : Grows (skipFloatSuffix numberEnd) :=
  current_grows.bind fun _ => .ite (advance_grows.bind fun _ => .pure _) (.pure _)

/-- Reading the `::name` parts of a value moves forward and keeps what was reported. -/
theorem qualifiedTail_grows (fuel : Nat) (acc : String) : Grows (qualifiedTail fuel acc) := by
  induction fuel generalizing acc with
  | zero => exact .pure _
  | succ fuel ih =>
    unfold qualifiedTail
    exact (check_grows _).bind fun _ =>
      .ite (advance_grows.bind fun _ => (expect_grows _).bind fun _ => ih _) (.pure _)

/-- Reading a decorator value moves forward and keeps what was reported. -/
theorem decoratorValue_grows : Grows decoratorValue := by
  unfold decoratorValue
  refine current_grows.bind fun t => ?_
  split
  · exact advance_grows.bind fun _ => .pure _
  · exact advance_grows.bind fun _ => (skipFloatSuffix_grows _).bind fun _ => .pure _
  · exact advance_grows.bind fun _ => (expect_grows _).bind fun _ =>
      (skipFloatSuffix_grows _).bind fun _ => .pure _
  · exact .ite (advance_grows.bind fun _ => rounds_grows.bind fun _ => qualifiedTail_grows _ _)
      (fail_grows _)

/-- Reading comma-separated items moves forward and keeps reports, when each item does. -/
theorem commaItems_grows {item : Parser α} (h : Grows item) (fuel : Nat) (acc : Array α) :
    Grows (commaItems item fuel acc) := by
  induction fuel generalizing acc with
  | zero => exact .pure _
  | succ fuel ih =>
    unfold commaItems
    refine (check_grows _).bind fun _ => .ite (.pure _) (h.bind fun x => (eat_grows _).bind fun _ => ?_)
    exact .ite ((check_grows _).bind fun _ => .ite ((fail_grows _).bind fun _ => ih _) (ih _)) (ih _)

/-- Reading a decorator moves forward and keeps what was reported. -/
theorem decorator_grows : Grows decorator := by
  unfold decorator
  have rest : Grows (advance >>= fun t => eat .leftParen >>= fun b =>
      if b = true then rounds >>= fun n => commaItems decoratorValue n #[] >>= fun values =>
        expect .rightParen >>= fun _ => pure (⟨t.text, values.toList⟩ : Decorator)
      else pure ⟨t.text, []⟩) :=
    advance_grows.bind fun _ => (eat_grows _).bind fun _ =>
      .ite (rounds_grows.bind fun _ => (commaItems_grows decoratorValue_grows _ _).bind fun _ =>
        (expect_grows _).bind fun _ => .pure _) (.pure _)
  exact (check_grows _).bind fun _ => .ite ((fail_grows _).bind fun _ => rest) rest

/-- Reading a decorator list moves forward and keeps what was reported. -/
theorem decoratorList_grows : Grows decoratorList := by
  unfold decoratorList
  exact (expect_grows _).bind fun _ => rounds_grows.bind fun _ =>
    (commaItems_grows decorator_grows _ _).bind fun _ => (expect_grows _).bind fun _ => .pure _

/-- Reading a member's decorators moves forward and keeps what was reported. -/
theorem memberDecorators_grows : Grows memberDecorators :=
  decoratorList_grows.bind fun _ => (eat_grows _).bind fun _ => .pure _

/-- Reading a member after its marker moves forward and keeps reports, when its reader does. -/
theorem member_grows {read : Parser α} (h : Grows read) : Grows (member read) :=
  .tryCatch (memberDecorators_grows.bind fun _ => h.bind fun _ => .pure _)
    fun _ => (report_grows _).bind fun _ => .pure _

/-- Reading a property moves forward and keeps what was reported. -/
theorem property_grows : Grows property := by
  unfold property
  refine .position_bind fun input s hs => ?_
  rw [runOn_bind_of_ok _ _ (runOn_read _ _)]
  have hle := le_index_scanProperty (input.fromIndex s.pos) s.pos 0 none
  split
  · next i _ heq =>
    rw [heq] at hle
    exact advances_bind (seek_advances hs hle) fun _ => fail_grows _
  · next stop boundary heq =>
    rw [heq] at hle
    refine advances_bind (seek_advances hs (by simp at hle; omega)) fun _ => ?_
    dsimp only
    split
    · exact .throw _
    · exact .ite ((warn_grows _ _).bind fun _ => .pure _) (.pure _)

/-- Skipping what follows a method's declarator moves forward and keeps what was reported. -/
theorem skipMethodTail_grows : Grows skipMethodTail := by
  unfold skipMethodTail
  refine current_grows.bind fun t => .position_bind fun input s hs => ?_
  rw [runOn_bind_of_ok _ _ (runOn_read _ _)]
  split
  · have hle := le_index_scanBraces (input.fromIndex s.pos) s.pos 0
    split
    · next i heq =>
      rw [heq] at hle
      exact advances_bind (seek_advances hs hle) fun _ =>
        advance_grows.bind fun _ => (eat_grows _).bind fun _ => .pure _
    · next i heq =>
      rw [heq] at hle
      exact advances_bind (seek_advances hs hle) fun _ => fail_grows _
  · have hle := le_index_scanTo .semicolon (fun k => k == .eof || k.isMarker)
      (input.fromIndex s.pos) s.pos
    split
    · next i heq =>
      rw [heq] at hle
      exact advances_bind (seek_advances hs hle) fun _ => advance_grows.bind fun _ => .pure _
    · next i heq =>
      rw [heq] at hle
      exact advances_bind (seek_advances hs hle) fun _ => fail_grows _
  · exact ((expect_grows _).bind fun _ => .pure _) input s hs

/-- Reading a method moves forward and keeps what was reported. -/
theorem method_grows : Grows method := by
  unfold method
  refine .position_bind fun input s hs => ?_
  rw [runOn_bind_of_ok _ _ (runOn_read _ _)]
  have hle := le_index_scanMethod (input.fromIndex s.pos) s.pos 0
  split
  · next i heq =>
    rw [heq] at hle
    exact advances_bind (seek_advances hs hle) fun _ => fail_grows _
  · next boundary heq =>
    rw [heq] at hle
    refine advances_bind (seek_advances hs hle) fun _ => skipMethodTail_grows.bind fun _ => ?_
    dsimp only
    split
    · refine .ite (Grows.throw _ |>.bind fun _ => ?_) ?_ <;>
      · split
        · exact .throw _
        · split
          · exact .throw _
          · exact .pure _
    · exact .throw _

/-- Reading a record's body moves forward and keeps what was reported. -/
theorem body_grows (fuel depth : Nat) (record : RecordDecl) : Grows (body fuel depth record) := by
  induction fuel generalizing depth record with
  | zero => exact fail_grows _
  | succ fuel ih =>
    unfold body
    refine current_grows.bind fun t => ?_
    split
    · exact fail_grows _
    · exact advance_grows.bind fun _ => ih _ _
    · exact advance_grows.bind fun _ => .ite (.pure _) (ih _ _)
    · exact .ite ((warn_grows _ _).bind fun _ => advance_grows.bind fun _ => ih _ _)
        (advance_grows.bind fun _ => ih _ _)
    · refine advance_grows.bind fun _ => (member_grows property_grows).bind fun m => ?_
      split
      · exact ih _ _
      · exact ih _ _
    · refine advance_grows.bind fun _ => (member_grows method_grows).bind fun m => ?_
      split
      · exact ih _ _
      · exact ih _ _
    · exact advance_grows.bind fun _ => ih _ _

/-- Reading the base classes moves forward and keeps what was reported. -/
theorem baseList_grows : Grows baseList := by
  unfold baseList
  refine .position_bind fun input s hs => ?_
  rw [runOn_bind_of_ok _ _ (runOn_read _ _)]
  have hle := le_index_scanBases (input.fromIndex s.pos) s.pos 0 [] []
  split
  · next i parents heq =>
    rw [heq] at hle
    exact advances_bind (seek_advances hs hle) fun _ => .pure _
  · next i _ heq =>
    rw [heq] at hle
    exact advances_bind (seek_advances hs hle) fun _ => fail_grows _

/-- Reading a record's name moves forward and keeps what was reported. -/
theorem recordName_grows (kind : RecordKind) (keyword : Token) :
    Grows (recordName kind keyword) := by
  unfold recordName
  refine .position_bind fun input s hs => ?_
  rw [runOn_bind_of_ok _ _ (runOn_read _ _)]
  refine advances_bind (seek_advances hs (Nat.le_add_right _ _)) fun _ => ?_
  dsimp only
  refine (check_grows _).bind fun _ =>
    .ite ((check_grows _).bind fun _ => .ite ((fail_grows _).bind fun _ => ?_) ?_) ?_
  -- after the checks the name is picked without reading further
  all_goals
    split
    · exact .pure _
    · exact .throw _

/-- The head of a record is read by moving past its marker and then moving forward. -/
theorem recordHead_after_marker :
    ∃ f : Token → Parser RecordDecl, recordHead = advance >>= f ∧ ∀ t, Grows (f t) := by
  refine ⟨_, rfl, fun _ => ?_⟩
  dsimp only
  refine decoratorList_grows.bind fun _ => (eat_grows _).bind fun _ =>
    (expect_grows _).bind fun _ => (recordName_grows _ _).bind fun _ => (eat_grows _).bind fun _ =>
    .ite (baseList_grows.bind fun _ => ?_) ((Grows.pure _).bind fun _ => ?_)
  all_goals exact read_grows.bind fun _ => .pure _

/-- Reading a record's head moves forward and keeps what was reported. -/
theorem recordHead_grows : Grows recordHead := by
  obtain ⟨f, hf, hg⟩ := recordHead_after_marker
  rw [hf]
  exact advance_grows.bind hg

/-- Reading a record moves forward and keeps what was reported. -/
theorem record_grows : Grows record :=
  recordHead_grows.bind fun _ => (expect_grows _).bind fun _ => rounds_grows.bind fun _ =>
    (body_grows _ _ _).bind fun _ => (expect_grows _).bind fun _ => .pure _

/-- Reading an enum value moves forward and keeps what was reported. -/
theorem enumValue_grows : Grows enumValue := by
  unfold enumValue
  refine (eat_grows _).bind fun _ => (expect_grows _).bind fun _ => ?_
  split
  · exact .pure _
  · exact read_grows.bind fun _ => .throw _

/-- Reading enum entries moves forward and keeps what was reported. -/
theorem enumEntries_grows (fuel : Nat) (next : Int) (acc : Array EnumEntry) :
    Grows (enumEntries fuel next acc) := by
  induction fuel generalizing next acc with
  | zero => exact .pure _
  | succ fuel ih =>
    unfold enumEntries
    dsimp only
    refine (check_grows _).bind fun _ => .ite (.pure _) ((check_grows _).bind fun _ =>
      .ite ((fail_grows _).bind fun _ => ?_) ?_)
    -- both ways past the name check go on with the same entry
    all_goals
      refine advance_grows.bind fun _ => (eat_grows _).bind fun _ =>
        .ite (enumValue_grows.bind fun _ => ?_) ((Grows.pure _).bind fun _ => ?_)
      all_goals
        exact (eat_grows _).bind fun _ =>
          .ite ((check_grows _).bind fun _ => .ite ((fail_grows _).bind fun _ => ih _ _) (ih _ _))
            (ih _ _)

/-- An enum's braced entries and what `finish` reads after them (the closing semicolon, for
`enumDecl`). -/
theorem enumBlock_grows (finish : EnumDecl → Parser EnumDecl) (hfinish : ∀ e, Grows (finish e))
    (name path : String) (isScoped : Bool) : Grows (do
    let _ ← expect .leftBrace
    let values ← enumEntries (← rounds) 0 #[]
    let _ ← expect .rightBrace
    finish ⟨name, path, values.toList, isScoped⟩) :=
  (expect_grows _).bind fun _ => rounds_grows.bind fun _ => (enumEntries_grows _ _ _).bind fun _ =>
    (expect_grows _).bind fun _ => hfinish _

/-- What follows an enum's name: an underlying type runs up to the brace that a scan from its start
finds, and the entries come after. -/
theorem enumTail_grows (finish : EnumDecl → Parser EnumDecl) (hfinish : ∀ e, Grows (finish e))
    (input : ParseInput) (name : String) (isScoped : Bool) : Grows (do
    if ← eat .colon then
      let here ← position
      match scanTo .leftBrace (fun k => k == .eof || k == .semicolon) (input.fromIndex here) here with
      | .found i => seek i
      | .cut i =>
        seek i
        fail "'\x7b'"
    let _ ← expect .leftBrace
    let values ← enumEntries (← rounds) 0 #[]
    let _ ← expect .rightBrace
    finish ⟨name, input.path, values.toList, isScoped⟩) := by
  dsimp only
  refine (eat_grows _).bind fun _ =>
    .ite (.position_bind fun _ s hs => ?_) (enumBlock_grows finish hfinish _ _ _)
  have hle := le_index_scanTo .leftBrace (fun k => k == .eof || k == .semicolon)
    (input.fromIndex s.pos) s.pos
  split
  · next i heq =>
    rw [heq] at hle
    exact advances_bind (seek_advances hs hle) fun _ => enumBlock_grows finish hfinish _ _ _
  · next i heq =>
    rw [heq] at hle
    exact advances_bind (seek_advances hs hle) fun _ => (fail_grows _).bind fun _ =>
      enumBlock_grows finish hfinish _ _ _

/-- An enum is read by taking its marker and then moving forward. -/
theorem enumDecl_after_marker :
    ∃ f : Token → Parser EnumDecl, enumDecl = expect .enumMarker >>= f ∧ ∀ t, Grows (f t) := by
  refine ⟨_, rfl, fun _ => ?_⟩
  dsimp only
  refine decoratorList_grows.bind fun _ => (eat_grows _).bind fun _ =>
    (expect_grows _).bind fun _ => (eat_grows _).bind fun _ =>
    .ite ((Grows.pure _).bind fun _ => ?_) ((eat_grows _).bind fun _ => ?_)
  all_goals
    refine .position_bind fun input s hs => ?_
    rw [runOn_bind_of_ok _ _ (runOn_read _ _)]
    refine advances_bind (seek_advances hs (Nat.le_add_right _ _)) fun _ => ?_
    -- the enum is closed by its semicolon
    have hclose : ∀ e : EnumDecl, Grows (do
        let _ ← expect .semicolon
        return e) := fun _ => (expect_grows _).bind fun _ => .pure _
    split
    · exact (Grows.pure _).bind fun _ => .ite ((warn_grows _ _).bind fun _ =>
        enumTail_grows _ hclose _ _ _) (enumTail_grows _ hclose _ _ _)
    · exact (fail_grows _).bind fun _ => .ite ((warn_grows _ _).bind fun _ =>
        enumTail_grows _ hclose _ _ _) (enumTail_grows _ hclose _ _ _)

/-- Reading an enum moves forward and keeps what was reported. -/
theorem enumDecl_grows : Grows enumDecl := by
  obtain ⟨f, hf, hg⟩ := enumDecl_after_marker
  rw [hf]
  exact (expect_grows _).bind hg

/-- Recovering from a failed declaration moves forward and keeps what was reported. -/
theorem recover_grows (start : Nat) (decls : FileDecls) (e : ParseError) :
    Grows (recover start decls e) := by
  unfold recover
  dsimp only
  exact (report_grows _).bind fun _ => position_grows.bind fun _ =>
    .ite (advance_grows.bind fun _ => .pure _) (.pure _)

/-- The walk over a header's declarations moves forward and keeps what was reported. -/
theorem declarations_grows (fuel : Nat) (decls : FileDecls) : Grows (declarations fuel decls) := by
  induction fuel generalizing decls with
  | zero => exact .pure _
  | succ fuel ih =>
    unfold declarations
    dsimp only
    exact (check_grows _).bind fun _ => .ite (.pure _) (position_grows.bind fun _ =>
      current_grows.bind fun _ =>
        .ite ((Grows.tryCatch (record_grows.bind fun _ => .pure _) (recover_grows _ _)).bind
            fun _ => ih _)
          (.ite ((Grows.tryCatch (enumDecl_grows.bind fun _ => .pure _) (recover_grows _ _)).bind
              fun _ => ih _)
            (advance_grows.bind fun _ => (Grows.pure _).bind fun _ => ih _)))

/-! ### Ignoring what was reported before -/

/-- Skipping a float suffix does not look at the reports. -/
theorem skipFloatSuffix_oblivious (numberEnd : Nat) : Oblivious (skipFloatSuffix numberEnd) :=
  current_oblivious.bind fun _ => .ite (advance_oblivious.bind fun _ => .pure _) (.pure _)

/-- Reading the `::name` parts of a value does not look at the reports. -/
theorem qualifiedTail_oblivious (fuel : Nat) (acc : String) :
    Oblivious (qualifiedTail fuel acc) := by
  induction fuel generalizing acc with
  | zero => exact .pure _
  | succ fuel ih =>
    unfold qualifiedTail
    exact (check_oblivious _).bind fun _ =>
      .ite (advance_oblivious.bind fun _ => (expect_oblivious _).bind fun _ => ih _) (.pure _)

/-- Reading a decorator value does not look at the reports. -/
theorem decoratorValue_oblivious : Oblivious decoratorValue := by
  unfold decoratorValue
  refine current_oblivious.bind fun t => ?_
  split
  · exact advance_oblivious.bind fun _ => .pure _
  · exact advance_oblivious.bind fun _ => (skipFloatSuffix_oblivious _).bind fun _ => .pure _
  · exact advance_oblivious.bind fun _ => (expect_oblivious _).bind fun _ =>
      (skipFloatSuffix_oblivious _).bind fun _ => .pure _
  · exact .ite (advance_oblivious.bind fun _ => rounds_oblivious.bind fun _ =>
      qualifiedTail_oblivious _ _) (fail_oblivious _)

/-- Reading comma-separated items does not look at the reports, when each item does not. -/
theorem commaItems_oblivious {item : Parser α} (h : Oblivious item) (fuel : Nat) (acc : Array α) :
    Oblivious (commaItems item fuel acc) := by
  induction fuel generalizing acc with
  | zero => exact .pure _
  | succ fuel ih =>
    unfold commaItems
    refine (check_oblivious _).bind fun _ => .ite (.pure _) (h.bind fun x =>
      (eat_oblivious _).bind fun _ => ?_)
    exact .ite ((check_oblivious _).bind fun _ =>
      .ite ((fail_oblivious _).bind fun _ => ih _) (ih _)) (ih _)

/-- Reading a decorator does not look at the reports. -/
theorem decorator_oblivious : Oblivious decorator := by
  unfold decorator
  dsimp only
  refine (check_oblivious _).bind fun _ => .ite ((fail_oblivious _).bind fun _ => ?_) ?_
  all_goals
    exact advance_oblivious.bind fun _ => (eat_oblivious _).bind fun _ =>
      .ite (rounds_oblivious.bind fun _ => (commaItems_oblivious decoratorValue_oblivious _ _).bind
        fun _ => (expect_oblivious _).bind fun _ => .pure _) (.pure _)

/-- Reading a decorator list does not look at the reports. -/
theorem decoratorList_oblivious : Oblivious decoratorList := by
  unfold decoratorList
  exact (expect_oblivious _).bind fun _ => rounds_oblivious.bind fun _ =>
    (commaItems_oblivious decorator_oblivious _ _).bind fun _ => (expect_oblivious _).bind fun _ =>
      .pure _

/-- Reading a member's decorators does not look at the reports. -/
theorem memberDecorators_oblivious : Oblivious memberDecorators :=
  decoratorList_oblivious.bind fun _ => (eat_oblivious _).bind fun _ => .pure _

/-- Reading a member after its marker does not look at the reports, when its reader does not. -/
theorem member_oblivious {read : Parser α} (h : Oblivious read) : Oblivious (member read) :=
  .tryCatch (memberDecorators_oblivious.bind fun _ => h.bind fun _ => .pure _)
    fun _ => (report_oblivious _).bind fun _ => .pure _

/-- Reading a property does not look at the reports. -/
theorem property_oblivious : Oblivious property := by
  unfold property
  refine position_oblivious.bind fun start => read_oblivious.bind fun input => ?_
  split
  · exact (seek_oblivious _).bind fun _ => fail_oblivious _
  · refine (seek_oblivious _).bind fun _ => ?_
    dsimp only
    split
    · exact .throw _
    · exact .ite ((warn_oblivious _ _).bind fun _ => .pure _) (.pure _)

/-- Skipping what follows a method's declarator does not look at the reports. -/
theorem skipMethodTail_oblivious : Oblivious skipMethodTail := by
  unfold skipMethodTail
  refine current_oblivious.bind fun t => position_oblivious.bind fun start =>
    read_oblivious.bind fun input => ?_
  split
  · split
    · exact (seek_oblivious _).bind fun _ => advance_oblivious.bind fun _ =>
        (eat_oblivious _).bind fun _ => .pure _
    · exact (seek_oblivious _).bind fun _ => fail_oblivious _
  · split
    · exact (seek_oblivious _).bind fun _ => advance_oblivious.bind fun _ => .pure _
    · exact (seek_oblivious _).bind fun _ => fail_oblivious _
  · exact (expect_oblivious _).bind fun _ => .pure _

/-- Reading a method does not look at the reports. -/
theorem method_oblivious : Oblivious method := by
  unfold method
  refine position_oblivious.bind fun start => read_oblivious.bind fun input => ?_
  split
  · exact (seek_oblivious _).bind fun _ => fail_oblivious _
  · refine (seek_oblivious _).bind fun _ => skipMethodTail_oblivious.bind fun _ => ?_
    dsimp only
    split
    · refine .ite (Oblivious.throw _ |>.bind fun _ => ?_) ?_ <;>
      · split
        · exact .throw _
        · split
          · exact .throw _
          · exact .pure _
    · exact .throw _

/-- Reading a record's body does not look at the reports. -/
theorem body_oblivious (fuel depth : Nat) (record : RecordDecl) :
    Oblivious (body fuel depth record) := by
  induction fuel generalizing depth record with
  | zero => exact fail_oblivious _
  | succ fuel ih =>
    unfold body
    refine current_oblivious.bind fun t => ?_
    split
    · exact fail_oblivious _
    · exact advance_oblivious.bind fun _ => ih _ _
    · exact advance_oblivious.bind fun _ => .ite (.pure _) (ih _ _)
    · exact .ite ((warn_oblivious _ _).bind fun _ => advance_oblivious.bind fun _ => ih _ _)
        (advance_oblivious.bind fun _ => ih _ _)
    · refine advance_oblivious.bind fun _ => (member_oblivious property_oblivious).bind fun m => ?_
      split
      · exact ih _ _
      · exact ih _ _
    · refine advance_oblivious.bind fun _ => (member_oblivious method_oblivious).bind fun m => ?_
      split
      · exact ih _ _
      · exact ih _ _
    · exact advance_oblivious.bind fun _ => ih _ _

/-- Reading the base classes does not look at the reports. -/
theorem baseList_oblivious : Oblivious baseList := by
  unfold baseList
  refine position_oblivious.bind fun start => read_oblivious.bind fun input => ?_
  split
  · exact (seek_oblivious _).bind fun _ => .pure _
  · exact (seek_oblivious _).bind fun _ => fail_oblivious _

/-- Reading a record's name does not look at the reports. -/
theorem recordName_oblivious (kind : RecordKind) (keyword : Token) :
    Oblivious (recordName kind keyword) := by
  unfold recordName
  refine position_oblivious.bind fun start => read_oblivious.bind fun input =>
    (seek_oblivious _).bind fun _ => ?_
  dsimp only
  refine (check_oblivious _).bind fun _ =>
    .ite ((check_oblivious _).bind fun _ => .ite ((fail_oblivious _).bind fun _ => ?_) ?_) ?_
  all_goals
    split
    · exact .pure _
    · exact .throw _

/-- Reading a record's head does not look at the reports. -/
theorem recordHead_oblivious : Oblivious recordHead := by
  unfold recordHead
  dsimp only
  refine advance_oblivious.bind fun _ => decoratorList_oblivious.bind fun _ =>
    (eat_oblivious _).bind fun _ => (expect_oblivious _).bind fun _ =>
    (recordName_oblivious _ _).bind fun _ => (eat_oblivious _).bind fun _ =>
    .ite (baseList_oblivious.bind fun _ => ?_) ((Oblivious.pure _).bind fun _ => ?_)
  all_goals exact read_oblivious.bind fun _ => .pure _

/-- Reading a record does not look at the reports. -/
theorem record_oblivious : Oblivious record :=
  recordHead_oblivious.bind fun _ => (expect_oblivious _).bind fun _ =>
    rounds_oblivious.bind fun _ => (body_oblivious _ _ _).bind fun _ =>
    (expect_oblivious _).bind fun _ => .pure _

/-- Reading an enum value does not look at the reports. -/
theorem enumValue_oblivious : Oblivious enumValue := by
  unfold enumValue
  refine (eat_oblivious _).bind fun _ => (expect_oblivious _).bind fun _ => ?_
  split
  · exact .pure _
  · exact read_oblivious.bind fun _ => .throw _

/-- Reading enum entries does not look at the reports. -/
theorem enumEntries_oblivious (fuel : Nat) (next : Int) (acc : Array EnumEntry) :
    Oblivious (enumEntries fuel next acc) := by
  induction fuel generalizing next acc with
  | zero => exact .pure _
  | succ fuel ih =>
    unfold enumEntries
    dsimp only
    refine (check_oblivious _).bind fun _ => .ite (.pure _) ((check_oblivious _).bind fun _ =>
      .ite ((fail_oblivious _).bind fun _ => ?_) ?_)
    all_goals
      refine advance_oblivious.bind fun _ => (eat_oblivious _).bind fun _ =>
        .ite (enumValue_oblivious.bind fun _ => ?_) ((Oblivious.pure _).bind fun _ => ?_)
      all_goals
        exact (eat_oblivious _).bind fun _ =>
          .ite ((check_oblivious _).bind fun _ =>
            .ite ((fail_oblivious _).bind fun _ => ih _ _) (ih _ _)) (ih _ _)

/-- Reading an enum does not look at the reports. -/
theorem enumDecl_oblivious : Oblivious enumDecl := by
  unfold enumDecl
  dsimp only
  have entries : ∀ (name path : String) (isScoped : Bool), Oblivious (do
      let _ ← expect .leftBrace
      let values ← enumEntries (← rounds) 0 #[]
      let _ ← expect .rightBrace
      let _ ← expect .semicolon
      return (⟨name, path, values.toList, isScoped⟩ : EnumDecl)) := fun _ _ _ =>
    (expect_oblivious _).bind fun _ => rounds_oblivious.bind fun _ =>
      (enumEntries_oblivious _ _ _).bind fun _ => (expect_oblivious _).bind fun _ =>
      (expect_oblivious _).bind fun _ => .pure _
  have typed : ∀ (input : ParseInput) (name : String) (isScoped : Bool), Oblivious (do
      if ← eat .colon then
        let here ← position
        match scanTo .leftBrace (fun k => k == .eof || k == .semicolon) (input.fromIndex here) here with
        | .found i => seek i
        | .cut i =>
          seek i
          fail "'\x7b'"
      let _ ← expect .leftBrace
      let values ← enumEntries (← rounds) 0 #[]
      let _ ← expect .rightBrace
      let _ ← expect .semicolon
      return (⟨name, input.path, values.toList, isScoped⟩ : EnumDecl)) := by
    intro input name isScoped
    dsimp only
    refine (eat_oblivious _).bind fun _ => .ite (position_oblivious.bind fun here => ?_) (entries _ _ _)
    split
    · exact (seek_oblivious _).bind fun _ => entries _ _ _
    · exact (seek_oblivious _).bind fun _ => (fail_oblivious _).bind fun _ => entries _ _ _
  refine (expect_oblivious _).bind fun _ => decoratorList_oblivious.bind fun _ =>
    (eat_oblivious _).bind fun _ => (expect_oblivious _).bind fun _ =>
    (eat_oblivious _).bind fun _ =>
    .ite ((Oblivious.pure _).bind fun _ => ?_) ((eat_oblivious _).bind fun _ => ?_)
  all_goals
    refine position_oblivious.bind fun start => read_oblivious.bind fun input =>
      (seek_oblivious _).bind fun _ => ?_
    split
    · exact (Oblivious.pure _).bind fun _ =>
        .ite ((warn_oblivious _ _).bind fun _ => typed _ _ _) (typed _ _ _)
    · exact (fail_oblivious _).bind fun _ =>
        .ite ((warn_oblivious _ _).bind fun _ => typed _ _ _) (typed _ _ _)

/-- Recovering from a failed declaration does not look at the reports. -/
theorem recover_oblivious (start : Nat) (decls : FileDecls) (e : ParseError) :
    Oblivious (recover start decls e) := by
  unfold recover
  dsimp only
  exact (report_oblivious _).bind fun _ => position_oblivious.bind fun _ =>
    .ite (advance_oblivious.bind fun _ => .pure _) (.pure _)

/-- The walk over a header's declarations does not look at the reports. -/
theorem declarations_oblivious (fuel : Nat) (decls : FileDecls) :
    Oblivious (declarations fuel decls) := by
  induction fuel generalizing decls with
  | zero => exact .pure _
  | succ fuel ih =>
    unfold declarations
    dsimp only
    exact (check_oblivious _).bind fun _ => .ite (.pure _) (position_oblivious.bind fun _ =>
      current_oblivious.bind fun _ =>
        .ite ((Oblivious.tryCatch (record_oblivious.bind fun _ => .pure _)
            (recover_oblivious _ _)).bind fun _ => ih _)
          (.ite ((Oblivious.tryCatch (enumDecl_oblivious.bind fun _ => .pure _)
              (recover_oblivious _ _)).bind fun _ => ih _)
            (advance_oblivious.bind fun _ => (Oblivious.pure _).bind fun _ => ih _)))

end Parser

end TypeReflection
