import TypeReflection.Registry.Archive
import TypeReflection.Proofs.Registry.WellFormed

/-!
# Inheritance queries on every reachable registry

A registry is reachable when some sequence of successful operations leads to it from
`Registry.fresh`. A failed operation returns an error and no registry, so a run that ignores
failures visits reachable registries only, and so does `applyAll`, which stops at the first one.

Every reachable registry is well formed (`Reachable.wellFormed`), and on a well-formed registry the
queries by name answer the question about the edges: `hasParentNamed c p` holds exactly when the
type named `p` is reached from the type named `c` by one or more parent edges, and
`hasChildNamed` is the same question asked from the other end.
-/

set_option autoImplicit false

namespace TypeReflection.Registry

open Relation

/-- The registries that some sequence of successful operations reaches from a fresh one. -/
inductive Reachable : Registry → Prop where
  | fresh : Reachable Registry.fresh
  | step {r r' : Registry} (a : RegistryAction) : Reachable r → r.apply a = .ok r' → Reachable r'

/-- The empty registry a fresh one starts from is well formed: it has no types. -/
theorem wellFormed_empty : (⟨[], [], 1⟩ : Registry).WellFormed := by
  have hnone : ∀ next : TypeEntry → List Nat, ∀ a b,
      ¬(⟨[], [], 1⟩ : Registry).Edge next a b := by
    rintro next a b ⟨t, ht, -⟩
    simp at ht
  refine ⟨⟨?_, ?_, ?_, ?_, ?_, ?_, ?_, ?_, ?_⟩, ?_, ?_⟩ <;>
    simp [ids, EdgesLive, hnone, not_transGen_of_forall_not]

/-- A fresh registry, holding only the root type, is well formed. -/
theorem wellFormed_fresh : Registry.fresh.WellFormed :=
  wellFormed_empty.addType _ _ _ _

/-- Every successful operation keeps a registry well formed. -/
theorem WellFormed.apply {r r' : Registry} (h : r.WellFormed) {a : RegistryAction}
    (ha : r.apply a = .ok r') : r'.WellFormed := by
  cases a with
  | addType name native serializer decorators =>
    simp only [Registry.apply, Except.ok.injEq] at ha
    exact ha ▸ h.addType name native serializer decorators
  | addEnum name values =>
    simp only [Registry.apply, Except.ok.injEq] at ha
    exact ha ▸ h.putEnum _
  | addParent child parent => exact h.addParent ha
  | addProperty owner p => exact h.addProperty ha

/-- Every reachable registry is well formed: induction over the operations that reach it. -/
theorem Reachable.wellFormed {r : Registry} (h : r.Reachable) : r.WellFormed := by
  induction h with
  | fresh => exact wellFormed_fresh
  | step a _ ha ih => exact ih.apply ha

/-- Applying operations until one fails keeps a registry reachable. -/
theorem Reachable.applyAll {r : Registry} (h : r.Reachable) (actions : List RegistryAction) :
    (r.applyAll actions).1.Reachable := by
  induction actions generalizing r with
  | nil => exact h
  | cons a rest ih =>
    unfold Registry.applyAll
    split
    · next r' ha => exact ih (.step a h ha)
    · exact h

/-! ## A registry built by registration -/

/-- A property stored in a field of the root class's part, named as the property. -/
def rootField (name typeName : String) (fieldType : FieldType) (decorators : DecoratorList) :
    Property :=
  ⟨name, typeName, ⟨NativeClass.objectBase, name, fieldType, true⟩, decorators⟩

/-- An enum, a diamond of types with serializers (`Left` and `Right` derive from `Base`, `Leaf`
from both) and a type `Scratch` that derives from `Leaf` until it is registered again. `Base` and
`Right` both own a property `name`; `Leaf`'s property is decorated `DontSerialize`. -/
def diamondActions : List RegistryAction :=
  [.addEnum "Team" [("Red", none), ("Blue", none)],
    .addType "Base" NativeClass.objectBase (some .ownProperties) .empty,
    .addType "Left" NativeClass.objectBase (some .ownProperties) .empty,
    .addType "Right" NativeClass.objectBase (some .ownProperties) .empty,
    .addType "Leaf" NativeClass.objectBase (some .ownProperties) .empty,
    .addType "Scratch" NativeClass.objectBase none .empty,
    .addParent "Left" "Base", .addParent "Right" "Base",
    .addParent "Leaf" "Left", .addParent "Leaf" "Right", .addParent "Scratch" "Leaf",
    .addType "Scratch" NativeClass.objectBase none .empty,
    .addProperty "Base" (rootField "name" "std::string" .text .empty),
    .addProperty "Left" (rootField "team" "Team" (.enum "Team" [0, 1] 0) .empty),
    .addProperty "Right" (rootField "name" "FName" .text .empty),
    .addProperty "Leaf" (rootField "cache" "int32_t" (.signed 32) ⟨[⟨dontSerialize, []⟩]⟩)]

/-- The registry the diamond's registration reaches. -/
def diamond : Registry := (Registry.fresh.applyAll diamondActions).1

/-- The type of the diamond registered under `name`. -/
def diamondType (name : String) : TypeEntry := (diamond.find? name).getD default

theorem reachable_diamond : diamond.Reachable := Reachable.applyAll .fresh _

/-- Every registration of the diamond succeeds. -/
example : (Registry.fresh.applyAll diamondActions).2 = none := by decide

/-! ## The queries by name -/

/-- On a well-formed registry, `hasParentNamed` asks whether the type named `parent` is reached
from the type named `child` by one or more parent edges. -/
theorem WellFormed.hasParentNamed_iff {r : Registry} (h : r.WellFormed) (child parent : String) :
    r.hasParentNamed child parent = true ↔ ∃ c p, r.find? child = some c ∧
      r.find? parent = some p ∧ TransGen (r.Edge TypeEntry.parents) c.id p.id := by
  unfold hasParentNamed
  cases hc : r.find? child with
  | none => simp
  | some c =>
    cases hp : r.find? parent with
    | none => simp
    | some p =>
      simp only [List.contains_iff_mem, Option.some.injEq, exists_and_left, exists_eq_left']
      exact h.ancestors_iff c (find?_eq_some hc).1 p.id

/-- On a well-formed registry, asking from the parent's end gives the same answer. -/
theorem WellFormed.hasChildNamed_eq {r : Registry} (h : r.WellFormed) (parent child : String) :
    r.hasChildNamed parent child = r.hasParentNamed child parent := by
  unfold hasChildNamed hasParentNamed
  cases hc : r.find? child with
  | none => cases r.find? parent <;> rfl
  | some c =>
    cases hp : r.find? parent with
    | none => rfl
    | some p =>
      rw [Bool.eq_iff_iff, List.contains_iff_mem, List.contains_iff_mem,
        h.descendants_iff p (find?_eq_some hp).1, h.transGen_children_iff,
        h.ancestors_iff c (find?_eq_some hc).1]

/-- Every registry reachable from a fresh one is well formed, each of its types is found by its
own name, and the inheritance queries by name answer the question about the parent edges:
`hasParentNamed c p` holds exactly when `p` is a proper transitive parent of `c`, and
`hasChildNamed` is its converse. -/
theorem reachable_wellFormed {r : Registry} (h : r.Reachable) :
    r.WellFormed ∧ (∀ t ∈ r.types, r.find? t.name = some t) ∧
      (∀ child parent, r.hasParentNamed child parent = true ↔ ∃ c p, r.find? child = some c ∧
        r.find? parent = some p ∧ TransGen (r.Edge TypeEntry.parents) c.id p.id) ∧
      ∀ parent child, r.hasChildNamed parent child = r.hasParentNamed child parent := by
  have hwf := h.wellFormed
  exact ⟨hwf, fun t ht => find?_of_mem hwf.names_nodup ht, hwf.hasParentNamed_iff,
    hwf.hasChildNamed_eq⟩

/-- The diamond is reachable, so the invariant and the queries hold of it: `Leaf` derives from
`Base` along two paths, and `Scratch`, registered again, no longer derives from `Leaf`. -/
theorem reachable_wellFormed_diamond : diamond.Reachable ∧ (diamond.WellFormed ∧
    (∀ t ∈ diamond.types, diamond.find? t.name = some t) ∧
    (∀ child parent, diamond.hasParentNamed child parent = true ↔ ∃ c p,
      diamond.find? child = some c ∧ diamond.find? parent = some p ∧
      TransGen (diamond.Edge TypeEntry.parents) c.id p.id) ∧
    ∀ parent child, diamond.hasChildNamed parent child = diamond.hasParentNamed child parent) ∧
    diamond.hasParentNamed "Leaf" "Base" = true ∧ diamond.hasParentNamed "Scratch" "Leaf" = false :=
  ⟨reachable_diamond, reachable_wellFormed reachable_diamond, by decide, by decide⟩

end TypeReflection.Registry
