import Mathlib.Data.Finset.Card
import TypeReflection.Proofs.Registry.Inheritance

/-!
# Looking a property up through the parents

`Registry.findProperty?` looks a property up in a type's own properties and then, depth first,
in its parents in the order their edges were added, going at most one level deeper than there
are types. This file shows that on a well-formed registry the depth bound never cuts the search
short, and that the search answers the first property of the asked name in the *lookup order*:
the type's own properties in the order registered, then the lookup order of each parent in
turn.

`lookupOrderIn` is that order, cut at a depth; at every depth the search reads its first match
(`findPropertyIn_eq_find?`). The measure that makes the registry's bound enough is the number of
a type's ancestors. A parent has fewer than its child: the child's ancestors are the parent and
the parent's ancestors, and no type is its own ancestor (`ancestors_ssubset_of_parent`). Every
type has fewer ancestors than there are types (`card_ancestors_lt_size`). So the order cut at
the registry's bound satisfies the recursive equation of the lookup order (`lookupOrder_unfold`),
and it is the only list function that does (`eq_lookupOrder_of_unfold`).
-/

set_option autoImplicit false

namespace TypeReflection.Registry

open Relation

/-- The properties met by the lookup from `t`, `depth` levels deep: its own in the order
registered, then those met from each parent in the order the edges were added. -/
def lookupOrderIn (r : Registry) : Nat → TypeEntry → List Property
  | 0, _ => []
  | depth + 1, t => t.properties ++ (r.parentsOf t).flatMap (r.lookupOrderIn depth)

/-- The lookup order of `t`, as deep as the property search goes. -/
def lookupOrder (r : Registry) (t : TypeEntry) : List Property :=
  r.lookupOrderIn (r.size + 1) t

/-- At every depth, the search answers the first property of the asked name in the lookup order
cut at that depth. -/
theorem findPropertyIn_eq_find? (r : Registry) (name : String) :
    ∀ depth t, r.findPropertyIn name depth t = (r.lookupOrderIn depth t).find? (·.name == name) := by
  intro depth
  induction depth with
  | zero => intro t; rfl
  | succ depth ih =>
    intro t
    have hrest : r.findPropertyIn name depth =
        fun u => (r.lookupOrderIn depth u).find? (·.name == name) := funext ih
    simp only [findPropertyIn, lookupOrderIn, List.find?_append, List.find?_flatMap, hrest,
      TypeEntry.property?]
    cases t.properties.find? (·.name == name) <;> rfl

/-- `findProperty?` reads the first match in the lookup order. -/
theorem findProperty?_eq_find? (r : Registry) (t : TypeEntry) (name : String) :
    r.findProperty? t name = (r.lookupOrder t).find? (·.name == name) :=
  r.findPropertyIn_eq_find? name _ t

/-! ## Parents -/

/-- With distinct ids, the parents found for a type are the registered types whose ids it
lists. -/
theorem mem_parentsOf {r : Registry} (hids : r.ids.Nodup) {t p : TypeEntry} :
    p ∈ r.parentsOf t ↔ p ∈ r.types ∧ p.id ∈ t.parents := by
  simp only [parentsOf, List.mem_filterMap]
  constructor
  · rintro ⟨i, hi, hp⟩
    obtain ⟨hmem, rfl⟩ := byId?_eq_some hp
    exact ⟨hmem, hi⟩
  · rintro ⟨hmem, hi⟩
    exact ⟨p.id, hi, byId?_of_mem hids hmem⟩

section Ancestors

variable {r : Registry} (h : r.WellFormed)
include h

/-- The ancestors of a parent are fewer than those of its child: each of them is an ancestor
of the child, and the parent itself is one of the child's but not one of its own. -/
theorem ancestors_ssubset_of_parent {t p : TypeEntry} (ht : t ∈ r.types) (hp : p ∈ r.parentsOf t) :
    p.ancestors.toFinset ⊂ t.ancestors.toFinset := by
  obtain ⟨hpm, hpt⟩ := (mem_parentsOf h.ids_nodup).1 hp
  have hedge : r.Edge TypeEntry.parents t.id p.id := ⟨t, ht, rfl, hpt⟩
  have hsub : p.ancestors.toFinset ⊆ t.ancestors.toFinset := by
    intro i hi
    rw [List.mem_toFinset] at hi ⊢
    exact (h.ancestors_iff t ht i).2 (.head hedge ((h.ancestors_iff p hpm i).1 hi))
  rw [Finset.ssubset_iff_of_subset hsub]
  refine ⟨p.id, ?_, ?_⟩
  · rw [List.mem_toFinset]
    exact (h.ancestors_iff t ht _).2 (.single hedge)
  · rw [List.mem_toFinset]
    exact fun hmem => h.acyclic _ ((h.ancestors_iff p hpm _).1 hmem)

/-- A type has fewer ancestors than there are types: they are registered, and it is not one of
them. -/
theorem card_ancestors_lt_size {t : TypeEntry} (ht : t ∈ r.types) :
    t.ancestors.toFinset.card < r.size := by
  have hsub : t.ancestors.toFinset ⊆ r.ids.toFinset := by
    intro i hi
    rw [List.mem_toFinset] at hi ⊢
    obtain ⟨j, -, ⟨u, hu, -, hi⟩⟩ := TransGen.tail'_iff.1 ((h.ancestors_iff t ht i).1 hi)
    exact h.parents_live u hu i hi
  have hlt : t.ancestors.toFinset.card < r.ids.toFinset.card := by
    refine Finset.card_lt_card ((Finset.ssubset_iff_of_subset hsub).2 ⟨t.id, ?_, ?_⟩)
    · exact List.mem_toFinset.2 (List.mem_map_of_mem ht)
    · rw [List.mem_toFinset]
      exact fun hmem => h.acyclic _ ((h.ancestors_iff t ht _).1 hmem)
  calc t.ancestors.toFinset.card < r.ids.toFinset.card := hlt
    _ ≤ r.ids.length := List.toFinset_card_le _
    _ = r.size := by simp [ids, size]

/-- A function defined by recursion on a depth, each level reading the level below only at the
type's parents, answers alike at every depth beyond the type's number of ancestors: induction
on the depth, each parent having fewer ancestors than its child. -/
theorem eq_of_card_ancestors_lt {β : Type} (F : Nat → TypeEntry → β)
    (hF : ∀ d e t, (∀ p ∈ r.parentsOf t, F d p = F e p) → F (d + 1) t = F (e + 1) t) :
    ∀ d e {t : TypeEntry}, t ∈ r.types → t.ancestors.toFinset.card < d →
      t.ancestors.toFinset.card < e → F d t = F e t := by
  intro d
  induction d with
  | zero => intro e t _ hd; omega
  | succ d ih =>
    intro e t ht hd he
    obtain ⟨e, rfl⟩ : ∃ e', e = e' + 1 := ⟨e - 1, by omega⟩
    refine hF d e t fun p hp => ?_
    have hfewer := Finset.card_lt_card (ancestors_ssubset_of_parent h ht hp)
    exact ih e ((mem_parentsOf h.ids_nodup).1 hp).1 (by omega) (by omega)

/-- Any depth beyond a type's number of ancestors gives the whole lookup order. -/
theorem lookupOrderIn_stable :
    ∀ d e {t : TypeEntry}, t ∈ r.types → t.ancestors.toFinset.card < d →
      t.ancestors.toFinset.card < e → r.lookupOrderIn d t = r.lookupOrderIn e t :=
  eq_of_card_ancestors_lt h _ fun d e t hpar => by
    simp only [lookupOrderIn]
    rw [List.flatMap_congr hpar]

/-- The lookup order satisfies its recursive equation: a type's own properties, then the lookup
order of each parent. -/
theorem lookupOrder_unfold (t : TypeEntry) :
    r.lookupOrder t = t.properties ++ (r.parentsOf t).flatMap r.lookupOrder := by
  simp only [lookupOrder, lookupOrderIn]
  congr 1
  apply List.flatMap_congr
  intro p hp
  have hpm := ((mem_parentsOf h.ids_nodup).1 hp).1
  have hlt := card_ancestors_lt_size h hpm
  exact lookupOrderIn_stable h _ _ hpm hlt (by omega)

/-- The lookup order is the only list function that satisfies the recursive equation on every
registered type: strong induction on the number of ancestors. -/
theorem eq_lookupOrder_of_unfold (W : TypeEntry → List Property)
    (hW : ∀ u ∈ r.types, W u = u.properties ++ (r.parentsOf u).flatMap W) :
    ∀ t ∈ r.types, W t = r.lookupOrder t := by
  intro t ht
  induction hn : t.ancestors.toFinset.card using Nat.strong_induction_on generalizing t with
  | _ n ih =>
    rw [hW t ht, lookupOrder_unfold h _]
    congr 1
    apply List.flatMap_congr
    intro p hp
    have hfewer := Finset.card_lt_card (ancestors_ssubset_of_parent h ht hp)
    exact ih _ (hn ▸ hfewer) p ((mem_parentsOf h.ids_nodup).1 hp).1 rfl

/-- The search answers the same at every depth beyond the number of types. -/
theorem findPropertyIn_of_size_lt {t : TypeEntry} (ht : t ∈ r.types) (name : String) {depth : Nat}
    (hdepth : r.size < depth) : r.findPropertyIn name depth t = r.findProperty? t name := by
  have hlt := card_ancestors_lt_size h ht
  rw [findPropertyIn_eq_find?, findProperty?_eq_find?, lookupOrder,
    lookupOrderIn_stable h depth (r.size + 1) ht (by omega) (by omega)]

/-- The lookup order of a type holds exactly the properties of the types it reaches by zero or
more parent edges. -/
theorem mem_lookupOrder {t : TypeEntry} (ht : t ∈ r.types) {q : Property} :
    q ∈ r.lookupOrder t ↔
      ∃ u ∈ r.types, ReflTransGen (r.Edge TypeEntry.parents) t.id u.id ∧ q ∈ u.properties := by
  constructor
  · -- down the lookup order, strong induction on the number of ancestors
    induction hn : t.ancestors.toFinset.card using Nat.strong_induction_on generalizing t with
    | _ n ih =>
      intro hq
      rw [lookupOrder_unfold h _, List.mem_append, List.mem_flatMap] at hq
      rcases hq with hq | ⟨p, hp, hq⟩
      · exact ⟨t, ht, .refl, hq⟩
      · obtain ⟨hpm, hpt⟩ := (mem_parentsOf h.ids_nodup).1 hp
        have hfewer := Finset.card_lt_card (ancestors_ssubset_of_parent h ht hp)
        obtain ⟨u, hu, hpu, hqu⟩ := ih _ (hn ▸ hfewer) hpm rfl hq
        exact ⟨u, hu, .head ⟨t, ht, rfl, hpt⟩ hpu, hqu⟩
  · rintro ⟨u, hu, hpath, hq⟩
    -- up the path from `t`, one parent edge at a time
    suffices hup : ∀ a, ReflTransGen (r.Edge TypeEntry.parents) a u.id →
        ∀ t ∈ r.types, t.id = a → q ∈ r.lookupOrder t from hup _ hpath t ht rfl
    intro a hpath
    induction hpath using ReflTransGen.head_induction_on with
    | refl =>
      intro t ht hid
      rw [h.eq_of_id_eq ht hu hid, lookupOrder_unfold h _]
      exact List.mem_append_left _ hq
    | head hedge _ ih =>
      intro t ht hid
      obtain ⟨t', ht', hid', hpar⟩ := hedge
      obtain ⟨p, hpm, rfl⟩ := List.mem_map.1 (h.parents_live t' ht' _ hpar)
      rw [h.eq_of_id_eq ht' ht (hid'.trans hid.symm)] at hpar
      rw [lookupOrder_unfold h _]
      exact List.mem_append_right _ (List.mem_flatMap.2
        ⟨p, (mem_parentsOf h.ids_nodup).2 ⟨hpm, hpar⟩, ih p hpm rfl⟩)

/-- The search finds a property exactly when the type or one of its ancestors owns one of that
name. -/
theorem findProperty?_isSome_iff {t : TypeEntry} (ht : t ∈ r.types) (name : String) :
    (r.findProperty? t name).isSome ↔
      ∃ u ∈ r.types, ReflTransGen (r.Edge TypeEntry.parents) t.id u.id ∧
        ∃ q ∈ u.properties, q.name = name := by
  rw [findProperty?_eq_find?, List.find?_isSome]
  constructor
  · rintro ⟨q, hq, hname⟩
    obtain ⟨u, hu, hpath, hqu⟩ := (mem_lookupOrder h ht).1 hq
    exact ⟨u, hu, hpath, q, hqu, by simpa using hname⟩
  · rintro ⟨u, hu, hpath, q, hqu, hname⟩
    exact ⟨q, (mem_lookupOrder h ht).2 ⟨u, hu, hpath, hqu⟩, by simpa using hname⟩

end Ancestors

/-! ## By name -/

/-- Looking a property up by the type's name fails for an unknown type, fails for a missing
property, and otherwise answers the first match in the lookup order. -/
theorem findPropertyNamed_eq (r : Registry) (type name : String) :
    r.findPropertyNamed type name = match r.find? type with
      | none => .error (.unknownType type)
      | some t => match (r.lookupOrder t).find? (·.name == name) with
        | some p => .ok p
        | none => .error (.unknownProperty type name) := by
  unfold findPropertyNamed require
  cases r.find? type with
  | none => rfl
  | some t =>
    simp only [bind, Except.bind, findProperty?_eq_find?]
    cases (r.lookupOrder t).find? (·.name == name) <;> rfl

/-- On every reachable registry, the property search from a registered type answers the first
property of the asked name in the lookup order, which is the type's own properties followed by
the lookup order of each parent in the order the edges were added, and is the only list function
with that equation; the depth bound never decides the answer. The search succeeds exactly when
the type or one of its transitive parents owns a property of that name. By name, the lookup fails
with `unknownType` exactly for an unregistered type and with `unknownProperty` exactly when no
such property exists. -/
theorem findProperty_first_in_lookupOrder {r : Registry} (hr : r.Reachable) {t : TypeEntry}
    (ht : t ∈ r.types) (name : String) :
    r.findProperty? t name = (r.lookupOrder t).find? (·.name == name) ∧
      r.lookupOrder t = t.properties ++ (r.parentsOf t).flatMap r.lookupOrder ∧
      (∀ W : TypeEntry → List Property,
        (∀ u ∈ r.types, W u = u.properties ++ (r.parentsOf u).flatMap W) → W t = r.lookupOrder t) ∧
      (∀ depth, r.size < depth → r.findPropertyIn name depth t = r.findProperty? t name) ∧
      ((r.findProperty? t name).isSome ↔
        ∃ u ∈ r.types, ReflTransGen (r.Edge TypeEntry.parents) t.id u.id ∧
          ∃ q ∈ u.properties, q.name = name) ∧
      ∀ type, (r.findPropertyNamed type name = .error (.unknownType type) ↔ r.find? type = none) ∧
        (r.findPropertyNamed type name = .error (.unknownProperty type name) ↔
          ∃ u, r.find? type = some u ∧ ¬∃ v ∈ r.types,
            ReflTransGen (r.Edge TypeEntry.parents) u.id v.id ∧ ∃ q ∈ v.properties, q.name = name) ∧
        ∀ p, r.findPropertyNamed type name = .ok p ↔
          ∃ u, r.find? type = some u ∧ r.findProperty? u name = some p := by
  have h := hr.wellFormed
  refine ⟨findProperty?_eq_find? r t name, lookupOrder_unfold h _,
    fun W hW => eq_lookupOrder_of_unfold h W hW t ht, fun _ hd => findPropertyIn_of_size_lt h ht name hd,
    findProperty?_isSome_iff h ht name, fun type => ?_⟩
  rw [findPropertyNamed_eq]
  cases hu : r.find? type with
  | none => simp
  | some u =>
    have hsome := findProperty?_isSome_iff h (find?_eq_some hu).1 name
    rw [findProperty?_eq_find?] at hsome
    simp only [Option.some.injEq, exists_eq_left', ← hsome, findProperty?_eq_find?]
    cases (r.lookupOrder u).find? (·.name == name) <;> simp

/-- On the diamond, the lookup order of `Leaf` visits `Base` through `Left` before it visits
`Right`, so `name` is answered by `Base`'s property and not by that of `Right`, a direct parent;
`health` is owned by no type on the way, and an unregistered type is reported as such. -/
theorem findProperty_first_in_lookupOrder_diamond :
    diamond.Reachable ∧ diamondType "Leaf" ∈ diamond.types ∧
      (diamond.lookupOrder (diamondType "Leaf")).map (·.typeName) =
        ["int32_t", "Team", "std::string", "FName", "std::string"] ∧
      (diamond.findProperty? (diamondType "Leaf") "name").map (·.typeName) = some "std::string" ∧
      diamond.findProperty? (diamondType "Leaf") "health" = none ∧
      diamond.findPropertyNamed "Actor" "name" = .error (.unknownType "Actor") := by
  have hr := reachable_diamond
  have ht : diamondType "Leaf" ∈ diamond.types :=
    (find?_eq_some (rfl : diamond.find? "Leaf" = some (diamondType "Leaf"))).1
  obtain ⟨hname, -, -, -, -, hnamed⟩ := findProperty_first_in_lookupOrder hr ht "name"
  obtain ⟨hhealth, -⟩ := findProperty_first_in_lookupOrder hr ht "health"
  refine ⟨hr, ht, by decide, ?_, ?_, (hnamed "Actor").1.2 (by decide)⟩
  · rw [hname]
    decide
  · rw [hhealth]
    decide

end TypeReflection.Registry
