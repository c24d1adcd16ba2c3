import TypeReflection.Proofs.Registry.Inheritance

/-!
# What adding an inheritance edge does

`Registry.addParent child parent` has four outcomes, told apart by the registry alone
(`addParent_cases`):

* the child's name is unknown: `unknownType child`, whether or not the parent's is;
* the parent's name is unknown: `unknownType parent`;
* both are known and the edge would close a cycle, because they name the same type or the parent
  already derives from the child: `inheritanceCycle`;
* otherwise the registry with the edge.

The cycle test runs the registry's sweep; on a registry of good shape it asks exactly whether the
parent reaches the child by parent edges (`cycleTest_iff`), so no legitimate edge is refused and
every edge that would close a cycle is. A successful call changes nothing but the two edge lists
and the remembered closures (`EdgeAdded`), and adds exactly the one parent edge, which it leaves
as it was when the edge is there already.
-/

set_option autoImplicit false

namespace TypeReflection.Registry

open Relation

/-- `t'` is `t` with its edge lists and remembered closures possibly changed, where only the type
with id `c` gains the parent `p` and only the type with id `p` gains the child `c`. -/
structure EdgeAdded (c p : Nat) (t t' : TypeEntry) : Prop where
  name : t'.name = t.name
  id : t'.id = t.id
  native : t'.native = t.native
  properties : t'.properties = t.properties
  decorators : t'.decorators = t.decorators
  serializer : t'.serializer = t.serializer
  parents : t'.parents = if t.id = c then t.parents ++ [p] else t.parents
  children : t'.children = if t.id = p then t.children ++ [c] else t.children

section Outcomes

variable {r : Registry} {child parent : String}

theorem addParent_of_child_unknown (hc : r.find? child = none) :
    r.addParent child parent = .error (.unknownType child) := by
  simp only [addParent, require, hc, bind, Except.bind]

theorem addParent_of_parent_unknown {c : TypeEntry} (hc : r.find? child = some c)
    (hp : r.find? parent = none) : r.addParent child parent = .error (.unknownType parent) := by
  simp only [addParent, require, hc, hp, bind, Except.bind]

/-- The cycle test refuses exactly a parent that is the child, or that already reaches the child
by parent edges. -/
theorem cycleTest_iff (h : r.Shape) {c p : TypeEntry} (hc : r.find? child = some c)
    (hp : r.find? parent = some p) :
    (c.id == p.id || (r.reachable (·.parents) p.id).contains c.id) = true ↔
      child = parent ∨ TransGen (r.Edge TypeEntry.parents) p.id c.id := by
  obtain ⟨hcm, rfl⟩ := find?_eq_some hc
  obtain ⟨hpm, rfl⟩ := find?_eq_some hp
  -- one id for two found types means one type, and so one name
  have hsame : c.id = p.id ↔ c.name = p.name := by
    constructor
    · intro hid
      rw [h.eq_of_id_eq hcm hpm hid]
    · intro hname
      rw [hname, hp, Option.some.injEq] at hc
      rw [hc]
  simp only [Bool.or_eq_true, beq_iff_eq, List.contains_iff_mem, h.mem_reachable_parents, hsame]

theorem addParent_of_cycle (h : r.Shape) {c p : TypeEntry} (hc : r.find? child = some c)
    (hp : r.find? parent = some p)
    (hcyc : child = parent ∨ TransGen (r.Edge TypeEntry.parents) p.id c.id) :
    r.addParent child parent = .error (.inheritanceCycle child parent) := by
  simp only [addParent, require, hc, hp, bind, Except.bind]
  rw [if_pos ((cycleTest_iff h hc hp).2 hcyc)]
  rfl

theorem addParent_of_acyclic (h : r.Shape) {c p : TypeEntry} (hc : r.find? child = some c)
    (hp : r.find? parent = some p) (hne : child ≠ parent)
    (hnc : ¬TransGen (r.Edge TypeEntry.parents) p.id c.id) :
    ∃ r', r.addParent child parent = .ok r' := by
  simp only [addParent, require, hc, hp, bind, Except.bind]
  rw [if_neg (fun hcyc => ((cycleTest_iff h hc hp).1 hcyc).elim hne hnc)]
  split
  · exact ⟨_, rfl⟩
  · exact ⟨_, rfl⟩

/-- The four outcomes of adding an edge, each with the condition that leads to it. -/
theorem addParent_cases (h : r.Shape) (child parent : String) :
    (r.find? child = none ∧ r.addParent child parent = .error (.unknownType child)) ∨
      (∃ c, r.find? child = some c ∧ r.find? parent = none ∧
        r.addParent child parent = .error (.unknownType parent)) ∨
      (∃ c p, r.find? child = some c ∧ r.find? parent = some p ∧
        (child = parent ∨ TransGen (r.Edge TypeEntry.parents) p.id c.id) ∧
        r.addParent child parent = .error (.inheritanceCycle child parent)) ∨
      (∃ c p r', r.find? child = some c ∧ r.find? parent = some p ∧ child ≠ parent ∧
        ¬TransGen (r.Edge TypeEntry.parents) p.id c.id ∧ r.addParent child parent = .ok r') := by
  cases hc : r.find? child with
  | none => exact .inl ⟨rfl, addParent_of_child_unknown hc⟩
  | some c =>
    cases hp : r.find? parent with
    | none => exact .inr (.inl ⟨c, rfl, rfl, addParent_of_parent_unknown hc hp⟩)
    | some p =>
      by_cases hcyc : child = parent ∨ TransGen (r.Edge TypeEntry.parents) p.id c.id
      · exact .inr (.inr (.inl ⟨c, p, rfl, rfl, hcyc, addParent_of_cycle h hc hp hcyc⟩))
      · rw [not_or] at hcyc
        obtain ⟨r', hr'⟩ := addParent_of_acyclic h hc hp hcyc.1 hcyc.2
        exact .inr (.inr (.inr ⟨c, p, r', rfl, rfl, hcyc.1, hcyc.2, hr'⟩))

end Outcomes

/-! ## A successful call -/

/-- The types after a new edge is linked and the closures grown: every type keeps all but its
edge lists and closures. -/
theorem edgeAdded_extendClosures {r : Registry} {c p : Nat} (hcp : c ≠ p)
    (upward downward : List Nat) :
    List.Forall₂ (EdgeAdded c p) r.types ((r.link c p).extendClosures upward downward).types := by
  rw [extendClosures_eq]
  simp only [link_types hcp, List.map_map]
  rw [List.forall₂_map_right_iff, List.forall₂_same]
  intro t _
  exact ⟨rfl, rfl, rfl, rfl, rfl, rfl, rfl, rfl⟩

/-- A successful call adds the one parent edge `c → p`, and either finds it there and changes
nothing, or changes only the two edge lists and the closures. -/
theorem addParent_ok_frame {r r' : Registry} (h : r.Shape) {child parent : String}
    (hr : r.addParent child parent = .ok r') :
    ∃ c p, r.find? child = some c ∧ r.find? parent = some p ∧
      (∀ a b, r'.Edge TypeEntry.parents a b ↔
        r.Edge TypeEntry.parents a b ∨ (a = c.id ∧ b = p.id)) ∧
      ((p.id ∈ c.parents ∧ r' = r) ∨
        (p.id ∉ c.parents ∧ r'.enums = r.enums ∧ r'.nextId = r.nextId ∧
          List.Forall₂ (EdgeAdded c.id p.id) r.types r'.types)) := by
  obtain ⟨c, p, hc, hp, hne, -, ⟨hdup, rfl⟩ | ⟨hnew, rfl⟩⟩ := addParent_ok hr
  · -- the edge is there already: the old edges include it
    refine ⟨c, p, hc, hp, fun a b => ⟨.inl, ?_⟩, .inl ⟨hdup, rfl⟩⟩
    rintro (hab | ⟨rfl, rfl⟩)
    · exact hab
    · exact ⟨c, (find?_eq_some hc).1, rfl, hdup⟩
  · have hcid : c.id ∈ r.ids := List.mem_map_of_mem (find?_eq_some hc).1
    refine ⟨c, p, hc, hp, fun a b => ?_, .inr ⟨hnew, rfl, rfl, edgeAdded_extendClosures hne _ _⟩⟩
    rw [edge_extendClosures fun _ _ _ => rfl]
    exact edge_parents_link hne hcid

/-- On every reachable registry, adding an edge from `child` to `parent` fails with `unknownType`
exactly when a name is unregistered, naming the child when it is, and fails with
`inheritanceCycle` exactly when both are registered and the names are equal or the child is
already a transitive parent of the parent; otherwise it succeeds. A failure leaves a run of
operations at the registry it had. A success adds exactly the parent edge `child → parent`,
changing nothing when it is there already, and otherwise changes nothing but the child's parent
list, the parent's child list and the remembered closures. -/
theorem addParent_exact {r : Registry} (hr : r.Reachable) (child parent : String) :
    (r.find? child = none → r.addParent child parent = .error (.unknownType child)) ∧
      (∀ c, r.find? child = some c → r.find? parent = none →
        r.addParent child parent = .error (.unknownType parent)) ∧
      ((∃ n, r.addParent child parent = .error (.unknownType n)) ↔
        r.find? child = none ∨ r.find? parent = none) ∧
      (r.addParent child parent = .error (.inheritanceCycle child parent) ↔
        ∃ c p, r.find? child = some c ∧ r.find? parent = some p ∧
          (child = parent ∨ TransGen (r.Edge TypeEntry.parents) p.id c.id)) ∧
      ((∃ r', r.addParent child parent = .ok r') ↔
        ∃ c p, r.find? child = some c ∧ r.find? parent = some p ∧ child ≠ parent ∧
          ¬TransGen (r.Edge TypeEntry.parents) p.id c.id) ∧
      (∀ e rest, r.addParent child parent = .error e →
        r.applyAll (.addParent child parent :: rest) = (r, some e)) ∧
      ∀ r', r.addParent child parent = .ok r' →
        ∃ c p, r.find? child = some c ∧ r.find? parent = some p ∧
          (∀ a b, r'.Edge TypeEntry.parents a b ↔
            r.Edge TypeEntry.parents a b ∨ (a = c.id ∧ b = p.id)) ∧
          ((p.id ∈ c.parents ∧ r' = r) ∨
            (p.id ∉ c.parents ∧ r'.enums = r.enums ∧ r'.nextId = r.nextId ∧
              List.Forall₂ (EdgeAdded c.id p.id) r.types r'.types)) := by
  have h := hr.wellFormed.toShape
  have hcases := addParent_cases h child parent
  refine ⟨addParent_of_child_unknown, fun c hc hp => addParent_of_parent_unknown hc hp, ?_, ?_, ?_,
    ?_, fun r' hr' => addParent_ok_frame h hr'⟩
  · -- an unknown name is the only way to an `unknownType` error
    constructor
    · rintro ⟨n, hn⟩
      rcases hcases with ⟨hc, -⟩ | ⟨c, -, hp, -⟩ | ⟨c, p, -, -, -, he⟩ | ⟨c, p, r', -, -, -, -, he⟩
      · exact .inl hc
      · exact .inr hp
      · rw [hn] at he
        cases he
      · rw [hn] at he
        cases he
    · rintro (hc | hp)
      · exact ⟨child, addParent_of_child_unknown hc⟩
      · cases hc : r.find? child with
        | none => exact ⟨child, addParent_of_child_unknown hc⟩
        | some c => exact ⟨parent, addParent_of_parent_unknown hc hp⟩
  · constructor
    · intro hcyc
      rcases hcases with ⟨-, he⟩ | ⟨c, -, -, he⟩ | ⟨c, p, hc, hp, hcond, -⟩ | ⟨c, p, r', -, -, -, -, he⟩
      · rw [hcyc] at he
        cases he
      · rw [hcyc] at he
        cases he
      · exact ⟨c, p, hc, hp, hcond⟩
      · rw [hcyc] at he
        cases he
    · rintro ⟨c, p, hc, hp, hcond⟩
      exact addParent_of_cycle h hc hp hcond
  · constructor
    · rintro ⟨r', hr'⟩
      rcases hcases with ⟨-, he⟩ | ⟨c, -, -, he⟩ | ⟨c, p, -, -, -, he⟩ | ⟨c, p, -, hc, hp, hne, hnc, -⟩
      · rw [hr'] at he
        cases he
      · rw [hr'] at he
        cases he
      · rw [hr'] at he
        cases he
      · exact ⟨c, p, hc, hp, hne, hnc⟩
    · rintro ⟨c, p, hc, hp, hne, hnc⟩
      exact addParent_of_acyclic h hc hp hne hnc
  · intro e rest he
    simp only [applyAll, Registry.apply, he]

/-- On the diamond, making `Base` derive from `Leaf` is refused as a cycle, and a run of
operations stops there with the diamond unchanged; making `Leaf` derive from `Base` directly adds
exactly that edge; adding the edge from `Leaf` to `Left` again changes nothing; and an
unregistered child is named in the error. -/
theorem addParent_exact_diamond :
    diamond.Reachable ∧
      diamond.addParent "Base" "Leaf" = .error (.inheritanceCycle "Base" "Leaf") ∧
      diamond.applyAll [.addParent "Base" "Leaf", .addParent "Leaf" "Base"] =
        (diamond, some (.inheritanceCycle "Base" "Leaf")) ∧
      (∃ r', diamond.addParent "Leaf" "Base" = .ok r' ∧
        ∀ a b, r'.Edge TypeEntry.parents a b ↔ diamond.Edge TypeEntry.parents a b ∨
          (a = (diamondType "Leaf").id ∧ b = (diamondType "Base").id)) ∧
      diamond.addParent "Leaf" "Left" = .ok diamond ∧
      diamond.addParent "Actor" "Base" = .error (.unknownType "Actor") := by
  have hr := reachable_diamond
  have hwf := hr.wellFormed
  have hBase : diamond.find? "Base" = some (diamondType "Base") := rfl
  have hLeft : diamond.find? "Left" = some (diamondType "Left") := rfl
  have hLeaf : diamond.find? "Leaf" = some (diamondType "Leaf") := rfl
  -- the closures of the diamond decide which edges close a cycle
  have hpath : ∀ c p, diamond.find? c = some (diamondType c) →
      (TransGen (diamond.Edge TypeEntry.parents) (diamondType c).id (diamondType p).id ↔
        (diamondType p).id ∈ (diamondType c).ancestors) :=
    fun c p hc => (hwf.ancestors_iff _ (find?_eq_some hc).1 _).symm
  obtain ⟨-, -, -, hcycle, -, hstop, -⟩ := addParent_exact hr "Base" "Leaf"
  have hcyc := hcycle.2 ⟨_, _, hBase, hLeaf, .inr ((hpath "Leaf" "Base" hLeaf).2 (by decide))⟩
  obtain ⟨-, -, -, -, hok, -, hframe⟩ := addParent_exact hr "Leaf" "Base"
  obtain ⟨r', hr'⟩ := hok.2 ⟨_, _, hLeaf, hBase, by decide, by rw [hpath "Base" "Leaf" hBase]; decide⟩
  obtain ⟨c, p, hc, hp, hedges, -⟩ := hframe r' hr'
  obtain rfl := Option.some.inj (hc.symm.trans hLeaf)
  obtain rfl := Option.some.inj (hp.symm.trans hBase)
  obtain ⟨-, -, -, -, hok', -, hframe'⟩ := addParent_exact hr "Leaf" "Left"
  obtain ⟨r'', hr''⟩ :=
    hok'.2 ⟨_, _, hLeaf, hLeft, by decide, by rw [hpath "Left" "Leaf" hLeft]; decide⟩
  -- the edge is there already, so the registry stays as it was
  obtain ⟨c', p', hc', hp', -, ⟨-, rfl⟩ | ⟨hnew, -⟩⟩ := hframe' r'' hr''
  · exact ⟨hr, hcyc, hstop _ _ hcyc, ⟨r', hr', hedges⟩, hr'',
      (addParent_exact hr "Actor" "Base").1 (by decide)⟩
  · obtain rfl := Option.some.inj (hc'.symm.trans hLeaf)
    obtain rfl := Option.some.inj (hp'.symm.trans hLeft)
    exact absurd (by decide) hnew

end TypeReflection.Registry
