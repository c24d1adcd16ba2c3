import TypeReflection.Proofs.Parse.Passes
import TypeReflection.Proofs.Parse.Safety

/-!
# Reading a record's body

The body of a record runs from its `{` at `o` to the `}` at `c` that closes it. The body
loop counts braces itself, but hands each `GPROPERTY` or `GMETHOD` marker to a member read,
which moves the cursor on without counting: a property read goes to the first `;`, whatever
the braces, and a method read skips an inline body whole. So the loop keeps its count, and
ends at `c`, exactly when each member read moves past a brace-balanced run of tokens
(`ParseInput.MembersBalanced`). An initializer that holds a `;` inside braces, such as a
lambda, breaks this: the property ends inside the braces and the loop closes the record early
(`record_closes_early`).

When the member reads are balanced, the loop walks from `o` to `c` with its depth equal to one
more than the brace depth of the tokens it has read (`body_walk`). Each marker it meets at
depth one is handed to a member read, whose member the record keeps or whose error is
reported; the markers a member read moves past lie inside braces it opened, deeper than the
loop's own level (`member_lands`). What the record keeps is accounted for marker by marker in
`KeepsMembers`, one kind of member at a time.
-/

set_option autoImplicit false

namespace TypeReflection

open TypeReflection.Parser

namespace ParseInput

/-- Every member read from a `GPROPERTY` or `GMETHOD` marker strictly between `o` and `c` moves
past a brace-balanced run of tokens. -/
def MembersBalanced (input : ParseInput) (o c : Nat) : Prop :=
  ∀ x < c, o < x →
    ((input.tokenAt x).kind = .propertyMarker →
      input.BracesBalanced (x + 1) ((member property).runOn input ⟨x + 1, .empty⟩).2.pos) ∧
    ((input.tokenAt x).kind = .methodMarker →
      input.BracesBalanced (x + 1) ((member method).runOn input ⟨x + 1, .empty⟩).2.pos)

instance (input : ParseInput) (o c : Nat) : Decidable (input.MembersBalanced o c) :=
  inferInstanceAs (Decidable (∀ x < c, _))

end ParseInput

theorem Diagnostics.mem_errors_of_extends {d d₁ d' : Diagnostics} (h : (d.append d₁).Extends d')
    {e : ParseError} (he : e ∈ d₁.errors) : e ∈ d'.errors := by
  have := h.errors.subset (show e ∈ (d.append d₁).errors.toList by simp [he])
  simpa using this

namespace Parser

variable {α β : Type}

/-- What a record keeps of the member read from the marker at `x`: the member the read gives,
or, when the read failed, an error it reported. -/
def MemberKept (read : Parser α) (input : ParseInput) (x : Nat) (kept : DecoratorList × α → Prop)
    (errors : Array ParseError) : Prop :=
  ∃ res s', (member read).runOn input ⟨x + 1, .empty⟩ = (.ok res, s') ∧
    (∀ m, res = some m → kept m) ∧ (res = none → ∃ e ∈ s'.diagnostics.errors, e ∈ errors)

/-- The members of one kind a body keeps, read from its markers of kind `k` from `i` up to the
closing brace at `c`, in a record whose body opens at `o`. `before` is the list the record held
when the walk reached `i`, and `after` the list it holds at the end: it keeps what was there,
keeps (or reports) the member of every marker at depth one, and holds nothing that no marker
gave. -/
structure KeepsMembers (input : ParseInput) (o i c : Nat) (k : TokenKind) (read : Parser α)
    (keep : DecoratorList × α → β) (before after : List β) (errors : Array ParseError) : Prop where
  earlier : before <+: after
  kept : ∀ x, i ≤ x → x < c → input.braceDepth (o + 1) x = 0 → (input.tokenAt x).kind = k →
    MemberKept read input x (fun m => keep m ∈ after) errors
  from_markers : ∀ v ∈ after, v ∈ before ∨ ∃ x m s', i ≤ x ∧ x < c ∧ (input.tokenAt x).kind = k ∧
    (member read).runOn input ⟨x + 1, .empty⟩ = (.ok (some m), s') ∧ v = keep m

namespace KeepsMembers

variable {input : ParseInput} {o i j c : Nat} {k : TokenKind} {read : Parser α}
  {keep : DecoratorList × α → β} {before after : List β} {errors : Array ParseError}

/-- At the closing brace there is nothing left to read. -/
theorem done (l : List β) : KeepsMembers input o c c k read keep l l errors where
  earlier := List.prefix_refl l
  kept := fun _ h₁ h₂ => absurd h₂ (Nat.not_lt.2 h₁)
  from_markers := fun _ hv => .inl hv

/-- A step from `i` to `j` that meets no marker of kind `k` at depth one keeps what the walk
from `j` keeps. -/
theorem skip (h : KeepsMembers input o j c k read keep before after errors) (hij : i ≤ j)
    (hskip : ∀ x, i ≤ x → x < j → input.braceDepth (o + 1) x = 0 → (input.tokenAt x).kind ≠ k) :
    KeepsMembers input o i c k read keep before after errors where
  earlier := h.earlier
  kept := by
    intro x h₁ h₂ hd hk
    rcases Nat.lt_or_ge x j with hx | hx
    · exact absurd hk (hskip x h₁ hx hd)
    · exact h.kept x hx h₂ hd hk
  from_markers := by
    intro v hv
    rcases h.from_markers v hv with hv | ⟨x, m, s', hx, hrest⟩
    · exact .inl hv
    · exact .inr ⟨x, m, s', Nat.le_trans hij hx, hrest⟩

/-- A step that reads the member of the marker at `i`, keeping it or reporting its error, and
moves past no other marker of kind `k` at depth one before `j`, keeps what the walk from `j`
keeps. -/
theorem reads {res : Option (DecoratorList × α)} {s' : ParseState}
    (hk : (input.tokenAt i).kind = k)
    (hrun : (member read).runOn input ⟨i + 1, .empty⟩ = (.ok res, s'))
    (h : KeepsMembers input o j c k read keep (before ++ (res.map keep).toList) after errors)
    (hij : i < j) (hjc : j ≤ c)
    (hskip : ∀ x, i < x → x < j → input.braceDepth (o + 1) x = 0 → (input.tokenAt x).kind ≠ k)
    (hreport : res = none → ∃ e ∈ s'.diagnostics.errors, e ∈ errors) :
    KeepsMembers input o i c k read keep before after errors where
  earlier := (List.prefix_append before _).trans h.earlier
  kept := by
    intro x h₁ h₂ hd hx
    rcases Nat.lt_or_eq_of_le h₁ with h₁ | rfl
    · rcases Nat.lt_or_ge x j with hxj | hxj
      · exact absurd hx (hskip x h₁ hxj hd)
      · exact h.kept x hxj h₂ hd hx
    · -- the marker read here: its member went into the list, or its error was reported
      refine ⟨res, s', hrun, fun m hm => h.earlier.subset ?_, hreport⟩
      simp [hm]
  from_markers := by
    intro v hv
    rcases h.from_markers v hv with hv | ⟨x, m, s'', hx, hrest⟩
    · rcases List.mem_append.1 hv with hv | hv
      · exact .inl hv
      · cases res with
        | none => simp at hv
        | some m =>
          simp only [Option.map_some, Option.toList_some, List.mem_singleton] at hv
          exact .inr ⟨i, m, s', Nat.le_refl i, by omega, hk, hrun, hv⟩
    · exact .inr ⟨x, m, s'', by omega, hrest⟩

/-- A walk that passes the token at `i`, not a marker of kind `k`, keeps what the walk from the
next token keeps. -/
theorem skip_one (h : KeepsMembers input o (i + 1) c k read keep before after errors)
    (hk : (input.tokenAt i).kind ≠ k) : KeepsMembers input o i c k read keep before after errors :=
  h.skip (Nat.le_succ i) fun x h₁ h₂ _ => by rwa [show x = i by omega]

/-- A step from the marker at `i`, of another kind than `k`, to `j`, meeting no marker of kind
`k` at depth one after `i`, keeps what the walk from `j` keeps. -/
theorem past_member (h : KeepsMembers input o j c k read keep before after errors) (hij : i < j)
    (hk : (input.tokenAt i).kind ≠ k)
    (hskip : ∀ x, i < x → x < j → input.braceDepth (o + 1) x = 0 → (input.tokenAt x).kind ≠ k) :
    KeepsMembers input o i c k read keep before after errors := by
  refine h.skip (Nat.le_of_lt hij) fun x h₁ h₂ hd => ?_
  rcases Nat.lt_or_eq_of_le h₁ with h₁ | rfl
  · exact hskip x h₁ h₂ hd
  · exact hk

end KeepsMembers

theorem not_unmarked_of_kind {input : ParseInput} {y : Nat} {k : TokenKind} (hk : k.isMarker = true)
    (h : (input.tokenAt y).kind = k) : ¬ input.Unmarked y := by
  rw [ParseInput.Unmarked, Token.NotMarker, h, hk]
  decide

/-- A read from `i` that moves past markers only deeper than the body's own level, up to `j`,
meets no marker at depth one on the way. -/
theorem kind_ne_of_nested {input : ParseInput} {o i j : Nat} {k : TokenKind}
    (hkm : k.isMarker = true)
    (hnested : ∀ y, i + 1 ≤ y → y < j → ¬ input.Unmarked y → 1 ≤ input.braceDepth (o + 1) y) :
    ∀ x, i < x → x < j → input.braceDepth (o + 1) x = 0 → (input.tokenAt x).kind ≠ k := by
  intro x h₁ h₂ hd hx
  have := hnested x h₁ h₂ (not_unmarked_of_kind hkm hx)
  omega

/-! ## One member read -/

/-- A member read never fails: it gives the member, or reports the error of its read and gives
nothing. -/
theorem member_run (read : Parser α) (input : ParseInput) (s : ParseState) :
    ∃ res s', (member read).runOn input s = (.ok res, s') ∧
      (res = none → ∃ e, e ∈ s'.diagnostics.errors) := by
  unfold member
  rw [runOn_tryCatch]
  rcases hrun : (memberDecorators >>= fun ds => read >>= fun m => pure (some (ds, m))).runOn input s
    with ⟨e | res, s₁⟩
  · refine ⟨none, _, runOn_bind_of_ok _ _ (runOn_report _ _ _), fun _ => ⟨e, ?_⟩⟩
    simp
  · refine ⟨res, s₁, rfl, fun hres => ?_⟩
    -- a read that gets through its decorators and its member gives that member
    rcases hdec : memberDecorators.runOn input s with ⟨_ | ds, s₂⟩
    · rw [runOn_bind_of_error _ _ hdec] at hrun
      cases (Prod.mk.inj hrun).1
    · rw [runOn_bind_of_ok _ _ hdec] at hrun
      rcases hread : read.runOn input s₂ with ⟨_ | m, s₃⟩
      · rw [runOn_bind_of_error _ _ hread] at hrun
        cases (Prod.mk.inj hrun).1
      · rw [runOn_bind_of_ok _ _ hread, runOn_pure] at hrun
        have := (Prod.mk.inj hrun).1
        rw [Except.ok.injEq, hres] at this
        cases this

section Lands

variable {input : ParseInput} {o c : Nat}

/-- The read of a member from the marker at `x`, inside a balanced body that closes at `c`, when
it moves past a balanced run: it ends no later than `c`, at the depth it started from, and every
marker it moves past lies deeper than the body's own level. -/
theorem member_lands {read : Parser α} (hg : Grows read)
    (hnest : ∀ input s, s.pos ≤ input.lastIndex →
      ∃ b, s.pos ≤ b ∧ PassesFrom (ParseInput.NestedAfter b) read input s)
    (hbody : input.BracesBalanced (o + 1) c) (hc : (input.tokenAt c).kind = .rightBrace)
    (hlast : c < input.lastIndex) {x : Nat} (hox : o < x) (hxc : x < c)
    {res : Option (DecoratorList × α)} {s' : ParseState}
    (hrun : (member read).runOn input ⟨x + 1, .empty⟩ = (.ok res, s'))
    (hbal : input.BracesBalanced (x + 1) s'.pos) :
    x + 1 ≤ s'.pos ∧ s'.pos ≤ c ∧ input.braceDepth (o + 1) s'.pos = input.braceDepth (o + 1) (x + 1) ∧
      ∀ y, x + 1 ≤ y → y < s'.pos → ¬ input.Unmarked y → 1 ≤ input.braceDepth (o + 1) y := by
  have hsize := input.lastIndex_lt
  have hadv := (member_grows hg).advances (by simp only; omega) hrun
  -- the body never closes a brace it did not open before `c`
  have hprefix : 0 ≤ input.braceDepth (o + 1) (x + 1) := hbody.nonneg (by omega) (by omega)
  have hend : s'.pos ≤ c := by
    refine Nat.le_of_not_lt fun hlt => ?_
    have hclose : input.braceDepth (o + 1) (c + 1) = -1 := by
      rw [input.braceDepth_succ (by omega) (by omega), hbody.2.2]
      simp [Token.nestStep, hc]
    have hsplit := input.braceDepth_add (show o + 1 ≤ x + 1 by omega) (show x + 1 ≤ c + 1 by omega)
    have := hbal.nonneg (show x + 1 ≤ c + 1 by omega) hlt
    omega
  refine ⟨hadv.pos_le, hend, ?_, ?_⟩
  · rw [input.braceDepth_add (show o + 1 ≤ x + 1 by omega) hadv.pos_le, hbal.2.2, Int.add_zero]
  · -- a marker moved past lies inside a brace the read opened at `b` or after
    intro y h₁ h₂ hy
    obtain ⟨b, hb, hpass⟩ := member_nests hg hnest input ⟨x + 1, .empty⟩ (by simp only; omega)
    rcases hpass y h₁ (by rw [hrun]; exact h₂) with hun | ⟨hby, hdepth⟩
    · exact absurd hun hy
    have h₃ := hbal.nonneg (show x + 1 ≤ b from hb) (by omega)
    rw [input.braceDepth_add (show o + 1 ≤ x + 1 by omega) (show x + 1 ≤ y by omega),
      input.braceDepth_add (show x + 1 ≤ b from hb) hby]
    omega

/-- The body loop's read of the member at the marker at `x`, from any reports `d`: it gives the
member, or reports an error and gives nothing; it runs as from no reports, with `d` kept in
front; and it lands as `member_lands` says. -/
theorem member_step {read : Parser α} (hg : Grows read)
    (hnest : ∀ input s, s.pos ≤ input.lastIndex →
      ∃ b, s.pos ≤ b ∧ PassesFrom (ParseInput.NestedAfter b) read input s)
    (hobl : Oblivious read) (hbody : input.BracesBalanced (o + 1) c)
    (hc : (input.tokenAt c).kind = .rightBrace) (hlast : c < input.lastIndex) {x : Nat}
    (hox : o < x) (hxc : x < c)
    (hbal : input.BracesBalanced (x + 1) ((member read).runOn input ⟨x + 1, .empty⟩).2.pos)
    (d : Diagnostics) :
    ∃ res s', (member read).runOn input ⟨x + 1, .empty⟩ = (.ok res, s') ∧
      (member read).runOn input ⟨x + 1, d⟩ = (.ok res, s'.after d) ∧
      (res = none → ∃ e, e ∈ s'.diagnostics.errors) ∧
      x + 1 ≤ s'.pos ∧ s'.pos ≤ c ∧
      input.braceDepth (o + 1) s'.pos = input.braceDepth (o + 1) (x + 1) ∧
      ∀ y, x + 1 ≤ y → y < s'.pos → ¬ input.Unmarked y → 1 ≤ input.braceDepth (o + 1) y := by
  obtain ⟨res, s', hrun, hnone⟩ := member_run read input ⟨x + 1, .empty⟩
  rw [hrun] at hbal
  have hactual : (member read).runOn input ⟨x + 1, d⟩ = (.ok res, s'.after d) := by
    rw [(member_oblivious hobl).runOn_eq, hrun]
  exact ⟨res, s', hrun, hactual, hnone, member_lands hg hnest hbody hc hlast hox hxc hrun hbal⟩

end Lands

/-! ## The walk over the body -/

/-- A property as the record keeps it: with the decorators read before it. -/
def keepProperty (m : DecoratorList × PropertyDecl) : PropertyDecl := { m.2 with decorators := m.1 }

/-- A method as the record keeps it: with the decorators read before it. -/
def keepMethod (m : DecoratorList × MethodDecl) : MethodDecl := { m.2 with decorators := m.1 }

/-- The record after a property read that gave `res`. -/
def addProperty (record : RecordDecl) : Option (DecoratorList × PropertyDecl) → RecordDecl
  | some m => { record with properties := record.properties ++ [keepProperty m] }
  | none => record

/-- The record after a method read that gave `res`. -/
def addMethod (record : RecordDecl) : Option (DecoratorList × MethodDecl) → RecordDecl
  | some m => { record with methods := record.methods ++ [keepMethod m] }
  | none => record

@[simp] theorem addProperty_properties (record : RecordDecl)
    (res : Option (DecoratorList × PropertyDecl)) :
    (addProperty record res).properties = record.properties ++ (res.map keepProperty).toList := by
  cases res <;> simp [addProperty]

@[simp] theorem addProperty_methods (record : RecordDecl)
    (res : Option (DecoratorList × PropertyDecl)) :
    (addProperty record res).methods = record.methods := by
  cases res <;> rfl

@[simp] theorem addMethod_properties (record : RecordDecl)
    (res : Option (DecoratorList × MethodDecl)) :
    (addMethod record res).properties = record.properties := by
  cases res <;> rfl

@[simp] theorem addMethod_methods (record : RecordDecl) (res : Option (DecoratorList × MethodDecl)) :
    (addMethod record res).methods = record.methods ++ (res.map keepMethod).toList := by
  cases res <;> simp [addMethod]

section Walk

variable {input : ParseInput} {o c : Nat} (hin : input.EndsWithEof)
  (hc : (input.tokenAt c).kind = .rightBrace) (hbody : input.BracesBalanced (o + 1) c)
  (hmem : input.MembersBalanced o c) (heof : ∀ y, o < y → y < c → (input.tokenAt y).kind ≠ .eof)
include hin hc hbody hmem heof

/-- The body loop from a cursor `i` inside the body, at one more than the depth of the tokens
read since the `{`, ends just past the `}` at `c`. On the way it keeps the member of every
marker it meets at depth one, or reports its error, and keeps no other member. -/
theorem body_walk (n i depth : Nat) (record : RecordDecl) (d : Diagnostics) (hoi : o < i)
    (hic : i ≤ c) (hdepth : (depth : Int) = 1 + input.braceDepth (o + 1) i) (hn : c - i < n) :
    ∃ r' d', (body n depth record).runOn input ⟨i, d⟩ = (.ok r', ⟨c + 1, d'⟩) ∧ d.Extends d' ∧
      KeepsMembers input o i c .propertyMarker property keepProperty record.properties
        r'.properties d'.errors ∧
      KeepsMembers input o i c .methodMarker method keepMethod record.methods r'.methods
        d'.errors := by
  have hlast : c < input.lastIndex := ParseInput.lt_lastIndex_of_ne_eof hin (by rw [hc]; decide)
  have hsize := input.lastIndex_lt
  -- the walk is by induction on the rounds; each round moves the cursor on by at least one
  induction n generalizing i depth record d with
  | zero => omega
  | succ n ih =>
    unfold body
    rw [runOn_bind_of_ok _ _ (runOn_current _ _)]
    have hnext : input.next i = i + 1 := input.next_of_lt (by omega)
    rcases Nat.lt_or_eq_of_le hic with hic | rfl
    · have hsucc := input.braceDepth_succ (show o + 1 ≤ i by omega) (show i < input.tokens.size by omega)
      -- a token the loop reads and passes itself: the walk goes on from the next one
      have step : ∀ (depth' : Nat) (record' : RecordDecl) (d₁ : Diagnostics),
          (depth' : Int) = 1 + input.braceDepth (o + 1) (i + 1) →
          record'.properties = record.properties → record'.methods = record.methods →
          d.Extends d₁ → (input.tokenAt i).kind ≠ .propertyMarker →
          (input.tokenAt i).kind ≠ .methodMarker →
          ∃ r' d', (body n depth' record').runOn input ⟨i + 1, d₁⟩ = (.ok r', ⟨c + 1, d'⟩) ∧
            d.Extends d' ∧
            KeepsMembers input o i c .propertyMarker property keepProperty record.properties
              r'.properties d'.errors ∧
            KeepsMembers input o i c .methodMarker method keepMethod record.methods r'.methods
              d'.errors := by
        intro depth' record' d₁ hdepth' hp hm hext hkp hkm
        obtain ⟨r', d', hrun, hext', hkeepP, hkeepM⟩ :=
          ih (i + 1) depth' record' d₁ (by omega) hic hdepth' (by omega)
        rw [hp] at hkeepP
        rw [hm] at hkeepM
        exact ⟨r', d', hrun, hext.trans hext', hkeepP.skip_one hkp, hkeepM.skip_one hkm⟩
      split
      · next hk => exact absurd hk (heof i hoi hic)
      · next hk =>
        rw [runOn_bind_of_ok _ _ (runOn_advance _ _)]
        simp only [hnext]
        refine step (depth + 1) record d ?_ rfl rfl (.refl d) (by rw [hk]; decide) (by rw [hk]; decide)
        simp [Token.nestStep, hk] at hsucc
        omega
      · next hk =>
        rw [runOn_bind_of_ok _ _ (runOn_advance _ _)]
        simp only [hnext]
        -- a `}` before `c` closes a brace opened inside the body, so the depth stays above one
        have hstep : (input.tokenAt i).braceStep = -1 := by simp [Token.nestStep, hk]
        have := hbody.nonneg (show o + 1 ≤ i + 1 by omega) (show i + 1 ≤ c by omega)
        rw [if_neg (by simp only [beq_iff_eq]; omega)]
        exact step (depth - 1) record d (by omega) rfl rfl (.refl d) (by rw [hk]; decide)
          (by rw [hk]; decide)
      · next hk =>
        have hdepth' : (depth : Int) = 1 + input.braceDepth (o + 1) (i + 1) := by
          simp [Token.nestStep, hk] at hsucc
          omega
        split
        · rw [runOn_bind_of_ok _ _ (runOn_warn _ _ _ _), runOn_bind_of_ok _ _ (runOn_advance _ _)]
          simp only [hnext]
          exact step depth _ _ hdepth' rfl rfl ⟨List.prefix_refl _, by simp⟩ (by rw [hk]; decide)
            (by rw [hk]; decide)
        · rw [runOn_bind_of_ok _ _ (runOn_advance _ _)]
          simp only [hnext]
          exact step depth _ d hdepth' rfl rfl (.refl d) (by rw [hk]; decide) (by rw [hk]; decide)
      · next hk =>
        rw [runOn_bind_of_ok _ _ (runOn_advance _ _)]
        simp only [hnext]
        obtain ⟨res, s', hrun, hactual, hnone, hj₁, hj₂, hjdepth, hnested⟩ :=
          member_step property_grows property_nests property_oblivious hbody hc hlast hoi hic
            ((hmem i hic hoi).1 hk) d
        rw [runOn_bind_of_ok _ _ hactual]
        -- the walk goes on from where the read stopped, with the read's member added
        obtain ⟨r', d', hrunIH, hext, hP, hM⟩ :=
          ih s'.pos depth (addProperty record res) (d.append s'.diagnostics) (by omega) hj₂
            (by simp [Token.nestStep, hk] at hsucc; omega) (by omega)
        refine ⟨r', d', by cases res <;> exact hrunIH, (Diagnostics.extends_append d _).trans hext,
          KeepsMembers.reads hk hrun (by simpa using hP) hj₁ hj₂ (kind_ne_of_nested rfl hnested)
            fun h => ?_,
          KeepsMembers.past_member (by simpa using hM) hj₁ (by rw [hk]; decide)
            (kind_ne_of_nested rfl hnested)⟩
        obtain ⟨e, he⟩ := hnone h
        exact ⟨e, he, Diagnostics.mem_errors_of_extends hext he⟩
      · next hk =>
        rw [runOn_bind_of_ok _ _ (runOn_advance _ _)]
        simp only [hnext]
        obtain ⟨res, s', hrun, hactual, hnone, hj₁, hj₂, hjdepth, hnested⟩ :=
          member_step method_grows method_nests method_oblivious hbody hc hlast hoi hic
            ((hmem i hic hoi).2 hk) d
        rw [runOn_bind_of_ok _ _ hactual]
        obtain ⟨r', d', hrunIH, hext, hP, hM⟩ :=
          ih s'.pos depth (addMethod record res) (d.append s'.diagnostics) (by omega) hj₂
            (by simp [Token.nestStep, hk] at hsucc; omega) (by omega)
        refine ⟨r', d', by cases res <;> exact hrunIH, (Diagnostics.extends_append d _).trans hext,
          KeepsMembers.past_member (by simpa using hP) hj₁ (by rw [hk]; decide)
            (kind_ne_of_nested rfl hnested),
          KeepsMembers.reads hk hrun (by simpa using hM) hj₁ hj₂ (kind_ne_of_nested rfl hnested)
            fun h => ?_⟩
        obtain ⟨e, he⟩ := hnone h
        exact ⟨e, he, Diagnostics.mem_errors_of_extends hext he⟩
      · next hk₁ hk₂ hk₃ hk₄ hk₅ hk₆ =>
        rw [runOn_bind_of_ok _ _ (runOn_advance _ _)]
        simp only [hnext]
        have hstep : (input.tokenAt i).braceStep = 0 := Token.nestStep_of_ne _ _ hk₂ hk₃
        exact step depth record d (by omega) rfl rfl (.refl d) hk₅ hk₆
    · -- at the closing brace the depth is one, and the loop stops just past it
      have hd1 : depth = 1 := by
        rw [hbody.2.2] at hdepth
        omega
      subst hd1
      simp only [hc]
      rw [runOn_bind_of_ok _ _ (runOn_advance _ _)]
      simp only [hnext]
      exact ⟨record, d, rfl, .refl d, .done _, .done _⟩

/-- A record read whose head leaves the cursor on the `{` at `o` reads its body up to the `}` at
`c` and goes on with the `;` after it, keeping the members of the body's markers at depth
one. -/
theorem record_body (s : ParseState) (decl : RecordDecl)
    (hhead : (recordHead.runOn input s).1 = .ok decl) (ho : (recordHead.runOn input s).2.pos = o)
    (hopen : (input.tokenAt o).kind = .leftBrace) :
    ∃ r d, record.runOn input s = (expect .semicolon >>= fun _ => pure r).runOn input ⟨c + 1, d⟩ ∧
      KeepsMembers input o (o + 1) c .propertyMarker property keepProperty decl.properties
        r.properties d.errors ∧
      KeepsMembers input o (o + 1) c .methodMarker method keepMethod decl.methods r.methods
        d.errors := by
  have hlast : c < input.lastIndex := ParseInput.lt_lastIndex_of_ne_eof hin (by rw [hc]; decide)
  have hsize := input.lastIndex_lt
  have hoc : o + 1 ≤ c := hbody.1
  have hrun : recordHead.runOn input s = (.ok decl, (recordHead.runOn input s).2) := by
    rw [← hhead]
  -- the head is followed by the `{`, and the body loop starts past it at depth one
  obtain ⟨r, d, hwalk, -, hP, hM⟩ := body_walk hin hc hbody hmem heof (input.tokens.size + 1) (o + 1) 1
    decl (recordHead.runOn input s).2.diagnostics (by omega) hoc (by simp) (by omega)
  refine ⟨r, d, ?_, hP, hM⟩
  unfold record
  rw [runOn_bind_of_ok _ _ hrun, runOn_bind_of_ok _ _ (by rw [runOn_expect, if_pos (by rw [ho]; exact hopen)]),
    runOn_bind_of_ok _ _ (runOn_rounds _ _)]
  simp only [ho, input.next_of_lt (show o < input.lastIndex by omega)]
  rw [runOn_bind_of_ok _ _ hwalk]

end Walk

end Parser

/-- A record whose body's braces are balanced, and whose member reads each move past balanced
braces, is read up to exactly the `}` that closes its body: past it the record read only reads
the `;` that ends the record. Every `GPROPERTY` and `GMETHOD` marker at depth one in the body
gives a member of the record or a reported error, and every member of the record comes from
such a marker. -/
theorem record_reads_body_to_matching_brace (text path : String) (s : ParseState)
    (decl : RecordDecl) (o c : Nat)
    (hhead : (recordHead.runOn (ParseInput.ofHeader text path) s).1 = .ok decl)
    (ho : (recordHead.runOn (ParseInput.ofHeader text path) s).2.pos = o)
    (hopen : ((ParseInput.ofHeader text path).tokenAt o).kind = .leftBrace)
    (hc : ((ParseInput.ofHeader text path).tokenAt c).kind = .rightBrace)
    (hbody : (ParseInput.ofHeader text path).BracesBalanced (o + 1) c)
    (hmem : (ParseInput.ofHeader text path).MembersBalanced o c) :
    ∃ r d, record.runOn (ParseInput.ofHeader text path) s =
        (expect .semicolon >>= fun _ => pure r).runOn (ParseInput.ofHeader text path) ⟨c + 1, d⟩ ∧
      KeepsMembers (ParseInput.ofHeader text path) o (o + 1) c .propertyMarker property
        keepProperty decl.properties r.properties d.errors ∧
      KeepsMembers (ParseInput.ofHeader text path) o (o + 1) c .methodMarker method keepMethod
        decl.methods r.methods d.errors := by
  have hin := ParseInput.ofHeader_endsWithEof text path
  have hlast : c < (ParseInput.ofHeader text path).lastIndex :=
    ParseInput.lt_lastIndex_of_ne_eof hin (by rw [hc]; decide)
  -- inside the body no token is the end of input, which only the last token is
  have heof : ∀ y, o < y → y < c → ((ParseInput.ofHeader text path).tokenAt y).kind ≠ .eof :=
    fun y _ hy => ParseInput.ofHeader_eof_only_last text path y (by omega)
  exact record_body hin hc hbody hmem heof s decl hhead ho hopen

/-- A class with a plain property, a nested struct and a method whose inline body holds braces of
its own. -/
def inlineMethodHeader : String :=
  "GCLASS() class Foo \x7b GPROPERTY() int x; struct Inner \x7b int y; \x7d; " ++
    "GMETHOD() int get() \x7b if (x) \x7b return x; \x7d return 0; \x7d \x7d;"

/-- The class of `inlineMethodHeader` meets every condition: its body, from the `{` at 5 to the
`}` at 41, is read whole, past the nested struct and the method's inline body, and the record
keeps the property `x` and the method `get`. -/
theorem record_reads_inline_method_body :
    (recordHead.runOn (ParseInput.ofHeader inlineMethodHeader "Foo.h") ⟨0, .empty⟩).1 = .ok
      { kind := .cls, name := "Foo", path := "Foo.h", properties := [], methods := [],
        decorators := ⟨[]⟩, parents := [], bodyLine := none } ∧
    (recordHead.runOn (ParseInput.ofHeader inlineMethodHeader "Foo.h") ⟨0, .empty⟩).2.pos = 5 ∧
    ((ParseInput.ofHeader inlineMethodHeader "Foo.h").tokenAt 5).kind = .leftBrace ∧
    ((ParseInput.ofHeader inlineMethodHeader "Foo.h").tokenAt 41).kind = .rightBrace ∧
    (ParseInput.ofHeader inlineMethodHeader "Foo.h").BracesBalanced (5 + 1) 41 ∧
    (ParseInput.ofHeader inlineMethodHeader "Foo.h").MembersBalanced 5 41 ∧
    (∃ r d, record.runOn (ParseInput.ofHeader inlineMethodHeader "Foo.h") ⟨0, .empty⟩ =
        (expect .semicolon >>= fun _ => pure r).runOn
          (ParseInput.ofHeader inlineMethodHeader "Foo.h") ⟨41 + 1, d⟩ ∧
      KeepsMembers (ParseInput.ofHeader inlineMethodHeader "Foo.h") 5 (5 + 1) 41 .propertyMarker
        property keepProperty [] r.properties d.errors ∧
      KeepsMembers (ParseInput.ofHeader inlineMethodHeader "Foo.h") 5 (5 + 1) 41 .methodMarker
        method keepMethod [] r.methods d.errors) ∧
    (parseHeader inlineMethodHeader "Foo.h").decls.records.map
      (fun r => (r.properties.map (·.name), r.methods.map (·.name))) = [(["x"], ["get"])] := by
  have hhead : (recordHead.runOn (ParseInput.ofHeader inlineMethodHeader "Foo.h") ⟨0, .empty⟩).1 = .ok
      { kind := .cls, name := "Foo", path := "Foo.h", properties := [], methods := [],
        decorators := ⟨[]⟩, parents := [], bodyLine := none } := by
    have h : (recordHead.runOn (ParseInput.ofHeader inlineMethodHeader "Foo.h")
        ⟨0, .empty⟩).1.toOption = some
          { kind := .cls, name := "Foo", path := "Foo.h", properties := [], methods := [],
            decorators := ⟨[]⟩, parents := [], bodyLine := none } := by
      decide +kernel
    rw [runOn_eq_of_toOption _ _ h]
  obtain ⟨ho, hopen, hc, hbody, hmem⟩ :
      (recordHead.runOn (ParseInput.ofHeader inlineMethodHeader "Foo.h") ⟨0, .empty⟩).2.pos = 5 ∧
      ((ParseInput.ofHeader inlineMethodHeader "Foo.h").tokenAt 5).kind = .leftBrace ∧
      ((ParseInput.ofHeader inlineMethodHeader "Foo.h").tokenAt 41).kind = .rightBrace ∧
      (ParseInput.ofHeader inlineMethodHeader "Foo.h").BracesBalanced (5 + 1) 41 ∧
      (ParseInput.ofHeader inlineMethodHeader "Foo.h").MembersBalanced 5 41 := by
    decide +kernel
  have hread := record_reads_body_to_matching_brace _ _ _ _ 5 41 hhead ho hopen hc hbody hmem
  have hmembers : (parseHeader inlineMethodHeader "Foo.h").decls.records.map
      (fun r => (r.properties.map (·.name), r.methods.map (·.name))) = [(["x"], ["get"])] := by
    decide +kernel
  exact ⟨hhead, ho, hopen, hc, hbody, hmem, hread, hmembers⟩

/-- A lambda initializer holds a `;` inside braces, so the property read stops inside them and
the body loop takes the lambda's `}` for the record's: the record closes early, keeps only the
first property, and reports no error for the one it dropped. -/
theorem record_closes_early :
    ((parseHeader
        "GCLASS() class Foo \x7b GPROPERTY() std::function<int()> F = []\x7b return 1; \x7d; GPROPERTY() int Y; \x7d;"
        "test.h").decls.records.map fun r => r.properties.map (·.name)) = [["F"]] ∧
    (parseHeader
        "GCLASS() class Foo \x7b GPROPERTY() std::function<int()> F = []\x7b return 1; \x7d; GPROPERTY() int Y; \x7d;"
        "test.h").diagnostics.errors = #[] := by
  decide +kernel

end TypeReflection
