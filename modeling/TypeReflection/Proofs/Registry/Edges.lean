import TypeReflection.Proofs.Registry.Reachability

/-!
# How the registry's operations change its edges

Each operation of the registry touches the inheritance edges in one of three ways:

* registering a property, an enum, or recomputing closures leaves every type's id and edges as
  they were (`edge_map`);
* removing a type drops it together with every edge that names it (`detach`, `edge_detach`);
* adding an edge `c → p` records `p` among the parents of `c` and `c` among the children of
  `p` (`link`, `edge_parents_link`, `edge_children_link`), after which the remembered closures
  are grown (`extendClosures`).

`removeType` and `addParent` are these pieces put together (`removeType_eq`, `addParent_ok`).
The first section is about relations alone: what one added edge does to the transitive closure,
which is what the registry's incremental update of ancestors and descendants relies on.
-/

set_option autoImplicit false

namespace TypeReflection.Registry

open Relation

/-! ## One more edge in a relation -/

section AddEdge

variable {α : Type} {R R' : α → α → Prop} {u v : α}

/-- A path in a relation with one extra edge `u → v` either avoids that edge, or runs to `u`,
takes it, and runs on from `v`. -/
theorem transGen_addEdge (hR' : ∀ a b, R' a b ↔ R a b ∨ (a = u ∧ b = v)) {x y : α} :
    TransGen R' x y ↔ TransGen R x y ∨ (ReflTransGen R x u ∧ ReflTransGen R v y) := by
  have hmono : R ≤ R' := fun a b h => (hR' a b).mpr (.inl h)
  have huv : R' u v := (hR' u v).mpr (.inr ⟨rfl, rfl⟩)
  constructor
  · intro h
    induction h with
    | single hxy =>
      rcases (hR' _ _).mp hxy with h | ⟨rfl, rfl⟩
      · exact .inl (.single h)
      · exact .inr ⟨.refl, .refl⟩
    | tail _ hzy ih =>
      rcases (hR' _ _).mp hzy with h | ⟨rfl, rfl⟩
      · rcases ih with ih | ⟨hxu, hvz⟩
        · exact .inl (ih.tail h)
        · exact .inr ⟨hxu, hvz.tail h⟩
      · rcases ih with ih | ⟨hxu, -⟩
        · exact .inr ⟨ih.to_reflTransGen, .refl⟩
        · exact .inr ⟨hxu, .refl⟩
  · rintro (h | ⟨hxu, hvy⟩)
    · exact TransGen.mono hmono _ _ h
    · exact (TransGen.tail' (ReflTransGen.mono hmono _ _ hxu) huv).trans_left
        (ReflTransGen.mono hmono _ _ hvy)

/-- The incremental update is exact: the old closure of `x`, joined with everything from `v` on
when `x` reaches `u`, is the closure of `x` once the edge `u → v` is there. Reaching is read in
the new relation on both sides, as the update computes it after adding the edge. -/
theorem transGen_addEdge_update (hR' : ∀ a b, R' a b ↔ R a b ∨ (a = u ∧ b = v)) {x y : α}
    {S : Prop} (hS : S ↔ TransGen R x y) :
    (S ∨ (ReflTransGen R' x u ∧ ReflTransGen R' v y)) ↔ TransGen R' x y := by
  have hmono : R ≤ R' := fun a b h => (hR' a b).mpr (.inl h)
  have huv : R' u v := (hR' u v).mpr (.inr ⟨rfl, rfl⟩)
  constructor
  · rintro (h | ⟨hxu, hvy⟩)
    · exact (transGen_addEdge hR').mpr (.inl (hS.mp h))
    · exact (TransGen.tail' hxu huv).trans_left hvy
  · intro h
    rcases (transGen_addEdge hR').mp h with h | ⟨hxu, hvy⟩
    · exact .inl (hS.mpr h)
    · exact .inr ⟨ReflTransGen.mono hmono _ _ hxu, ReflTransGen.mono hmono _ _ hvy⟩

end AddEdge

/-! ## Looking a type up by name -/

/-- The type found by name is registered and has that name. -/
theorem find?_eq_some {r : Registry} {n : String} {t : TypeEntry} (h : r.find? n = some t) :
    t ∈ r.types ∧ t.name = n := by
  unfold find? at h
  exact ⟨List.mem_of_find?_eq_some h, by simpa using List.find?_some h⟩

/-- With distinct names, every registered type is found by its name. -/
theorem find?_of_mem {r : Registry} (hnames : (r.types.map (·.name)).Nodup) {t : TypeEntry}
    (ht : t ∈ r.types) : r.find? t.name = some t := by
  have hsome : (r.find? t.name).isSome := by
    unfold find?
    rw [List.find?_isSome]
    exact ⟨t, ht, by simp⟩
  obtain ⟨t', ht'⟩ := Option.isSome_iff_exists.mp hsome
  obtain ⟨hmem, hname⟩ := find?_eq_some ht'
  rw [ht', List.inj_on_of_nodup_map hnames hmem ht hname]

/-- `require` succeeds exactly with the type found by name. -/
theorem require_eq_ok {r : Registry} {n : String} {t : TypeEntry} :
    r.require n = .ok t ↔ r.find? n = some t := by
  unfold require
  split <;> simp_all

/-! ## Changes that keep every edge -/

/-- Rewriting every type without touching its id or the edges named by `next` keeps those
edges. -/
theorem edge_map {r : Registry} {g : TypeEntry → TypeEntry} {next : TypeEntry → List Nat}
    (hid : ∀ t, (g t).id = t.id) (hnext : ∀ t, next (g t) = next t) {a b : Nat} :
    ({ r with types := r.types.map g } : Registry).Edge next a b ↔ r.Edge next a b := by
  simp only [Edge, List.mem_map]
  constructor
  · rintro ⟨_, ⟨t, ht, rfl⟩, hid', hb⟩
    exact ⟨t, ht, (hid t) ▸ hid', hnext t ▸ hb⟩
  · rintro ⟨t, ht, hid', hb⟩
    exact ⟨g t, ⟨t, ht, rfl⟩, (hid t).symm ▸ hid', (hnext t).symm ▸ hb⟩

/-- Rewriting every type without touching its id keeps the ids. -/
theorem ids_map {r : Registry} {g : TypeEntry → TypeEntry} (hid : ∀ t, (g t).id = t.id) :
    ({ r with types := r.types.map g } : Registry).ids = r.ids := by
  simp [ids, Function.comp_def, hid]

/-! ## Removing a type -/

/-- The registry without the type with id `i` and without every edge that names `i`, the
remembered closures left as they were. -/
def detach (r : Registry) (i : Nat) : Registry :=
  { r with types := (r.types.filter (·.id != i)).map fun t =>
      { t with parents := t.parents.filter (· != i), children := t.children.filter (· != i) } }

/-- Removing a type is detaching it and then recomputing every closure. -/
theorem removeType_eq (r : Registry) (i : Nat) : r.removeType i = (r.detach i).rebuildClosures :=
  rfl

/-- The detached types are the others, each with its edges to `i` dropped. -/
theorem mem_detach {r : Registry} {i : Nat} {t : TypeEntry} :
    t ∈ (r.detach i).types ↔ ∃ t₀ ∈ r.types, t₀.id ≠ i ∧ t = { t₀ with
      parents := t₀.parents.filter (· != i)
      children := t₀.children.filter (· != i) } := by
  simp only [detach, List.mem_map, List.mem_filter, bne_iff_ne, ne_eq]
  constructor
  · rintro ⟨t₀, ⟨ht₀, hne⟩, rfl⟩
    exact ⟨t₀, ht₀, hne, rfl⟩
  · rintro ⟨t₀, ht₀, hne, rfl⟩
    exact ⟨t₀, ⟨ht₀, hne⟩, rfl⟩

/-- Detaching keeps the ids other than `i`. -/
theorem ids_detach (r : Registry) (i : Nat) : (r.detach i).ids = r.ids.filter (· != i) := by
  simp only [detach, ids, List.map_map, List.filter_map]
  rfl

/-- The edges left after detaching `i` are the old ones that do not touch `i`. -/
theorem edge_detach {r : Registry} {i : Nat} {next : TypeEntry → List Nat}
    (hnext : ∀ t : TypeEntry, next { t with
      parents := t.parents.filter (· != i)
      children := t.children.filter (· != i) } = (next t).filter (· != i)) {a b : Nat} :
    (r.detach i).Edge next a b ↔ r.Edge next a b ∧ a ≠ i ∧ b ≠ i := by
  constructor
  · rintro ⟨t, ht, rfl, hb⟩
    obtain ⟨t₀, ht₀, hne, rfl⟩ := mem_detach.mp ht
    rw [hnext, List.mem_filter, bne_iff_ne] at hb
    exact ⟨⟨t₀, ht₀, rfl, hb.1⟩, hne, hb.2⟩
  · rintro ⟨⟨t₀, ht₀, rfl, hb⟩, hne, hbi⟩
    refine ⟨_, mem_detach.mpr ⟨t₀, ht₀, hne, rfl⟩, rfl, ?_⟩
    rw [hnext, List.mem_filter, bne_iff_ne]
    exact ⟨hb, hbi⟩

/-! ## Adding an edge -/

/-- The registry with `p` appended to the parents of `c` and `c` to the children of `p`, the
remembered closures left as they were. -/
def link (r : Registry) (c p : Nat) : Registry :=
  (r.modifyType c fun t => { t with parents := t.parents ++ [p] }).modifyType p
    fun t => { t with children := t.children ++ [c] }

/-- The linked types, each with the new edge recorded at its end. -/
theorem link_types {r : Registry} {c p : Nat} (hcp : c ≠ p) :
    (r.link c p).types = r.types.map fun t => { t with
      parents := if t.id = c then t.parents ++ [p] else t.parents
      children := if t.id = p then t.children ++ [c] else t.children } := by
  simp only [link, modifyType, List.map_map]
  congr 1
  funext t
  by_cases hc : t.id = c
  · have hp : t.id ≠ p := hc ▸ hcp
    simp [hc, hcp]
  · by_cases hp : t.id = p
    · simp [hp, hcp.symm]
    · simp [hc, hp]

/-- The ids are those of the registry before. -/
theorem ids_link {r : Registry} {c p : Nat} (hcp : c ≠ p) : (r.link c p).ids = r.ids := by
  rw [ids, link_types hcp, List.map_map]
  rfl

/-- The types of the linked registry, one by one. -/
theorem mem_link {r : Registry} {c p : Nat} (hcp : c ≠ p) {t : TypeEntry} :
    t ∈ (r.link c p).types ↔ ∃ t₀ ∈ r.types, t = { t₀ with
      parents := if t₀.id = c then t₀.parents ++ [p] else t₀.parents
      children := if t₀.id = p then t₀.children ++ [c] else t₀.children } := by
  rw [link_types hcp, List.mem_map]
  constructor
  · rintro ⟨t₀, ht₀, rfl⟩
    exact ⟨t₀, ht₀, rfl⟩
  · rintro ⟨t₀, ht₀, rfl⟩
    exact ⟨t₀, ht₀, rfl⟩

/-- After linking, the parent edges are the old ones and `c → p`. -/
theorem edge_parents_link {r : Registry} {c p : Nat} (hcp : c ≠ p) (hc : c ∈ r.ids) {a b : Nat} :
    (r.link c p).Edge TypeEntry.parents a b ↔
      r.Edge TypeEntry.parents a b ∨ (a = c ∧ b = p) := by
  constructor
  · rintro ⟨t, ht, rfl, hb⟩
    obtain ⟨t₀, ht₀, rfl⟩ := (mem_link hcp).mp ht
    by_cases htc : t₀.id = c
    · simp only [htc, if_true, List.mem_append, List.mem_singleton] at hb
      rcases hb with hb | hb
      · exact .inl ⟨t₀, ht₀, rfl, hb⟩
      · exact .inr ⟨htc, hb⟩
    · simp only [htc, if_false] at hb
      exact .inl ⟨t₀, ht₀, rfl, hb⟩
  · rintro (⟨t₀, ht₀, rfl, hb⟩ | ⟨rfl, rfl⟩)
    · refine ⟨_, (mem_link hcp).mpr ⟨t₀, ht₀, rfl⟩, rfl, ?_⟩
      by_cases htc : t₀.id = c <;> simp [htc, hb]
    · obtain ⟨t₀, ht₀, rfl⟩ := List.mem_map.mp hc
      exact ⟨_, (mem_link hcp).mpr ⟨t₀, ht₀, rfl⟩, rfl, by simp⟩

/-- After linking, the child edges are the old ones and `p → c`. -/
theorem edge_children_link {r : Registry} {c p : Nat} (hcp : c ≠ p) (hp : p ∈ r.ids) {a b : Nat} :
    (r.link c p).Edge TypeEntry.children a b ↔
      r.Edge TypeEntry.children a b ∨ (a = p ∧ b = c) := by
  constructor
  · rintro ⟨t, ht, rfl, hb⟩
    obtain ⟨t₀, ht₀, rfl⟩ := (mem_link hcp).mp ht
    by_cases htp : t₀.id = p
    · simp only [htp, if_true, List.mem_append, List.mem_singleton] at hb
      rcases hb with hb | hb
      · exact .inl ⟨t₀, ht₀, rfl, hb⟩
      · exact .inr ⟨htp, hb⟩
    · simp only [htp, if_false] at hb
      exact .inl ⟨t₀, ht₀, rfl, hb⟩
  · rintro (⟨t₀, ht₀, rfl, hb⟩ | ⟨rfl, rfl⟩)
    · refine ⟨_, (mem_link hcp).mpr ⟨t₀, ht₀, rfl⟩, rfl, ?_⟩
      by_cases htp : t₀.id = p <;> simp [htp, hb]
    · obtain ⟨t₀, ht₀, rfl⟩ := List.mem_map.mp hp
      exact ⟨_, (mem_link hcp).mpr ⟨t₀, ht₀, rfl⟩, rfl, by simp⟩

/-- The closures grown after adding an edge: every type in `downward` gains the ids in
`upward` as ancestors, and every type in `upward` gains those in `downward` as descendants. -/
def extendClosures (r : Registry) (upward downward : List Nat) : Registry :=
  { r with types := r.types.map fun t =>
    let t := if downward.contains t.id then { t with ancestors := joinIds t.ancestors upward } else t
    if upward.contains t.id then { t with descendants := joinIds t.descendants downward } else t }

/-- The grown closures, type by type. -/
theorem extendClosures_eq (r : Registry) (upward downward : List Nat) :
    r.extendClosures upward downward = { r with types := r.types.map fun t => { t with
      ancestors := if t.id ∈ downward then joinIds t.ancestors upward else t.ancestors
      descendants := if t.id ∈ upward then joinIds t.descendants downward else t.descendants } } := by
  simp only [extendClosures]
  congr 1
  apply List.map_congr_left
  intro t _
  by_cases hd : t.id ∈ downward <;> by_cases hu : t.id ∈ upward <;> simp [hd, hu]

/-- Growing closures keeps every edge. -/
theorem edge_extendClosures {r : Registry} {upward downward : List Nat}
    {next : TypeEntry → List Nat}
    (hnext : ∀ t anc desc, next { t with ancestors := anc, descendants := desc } = next t)
    {a b : Nat} : (r.extendClosures upward downward).Edge next a b ↔ r.Edge next a b := by
  rw [extendClosures_eq]
  exact edge_map (by intro; rfl) (by intro t; exact hnext _ _ _)

/-- What `joinIds` holds. -/
theorem mem_joinIds {ids more : List Nat} {x : Nat} : x ∈ joinIds ids more ↔ x ∈ ids ∨ x ∈ more := by
  by_cases hx : x ∈ ids <;> simp [joinIds, hx, List.mem_eraseDups]

/-- A successful `addParent` either finds the edge there already and changes nothing, or links
the two types and grows the closures from sweeps taken after the edge is added. Either way both
names are registered, they name different types, and the parent did not derive from the
child. -/
theorem addParent_ok {r r' : Registry} {child parent : String}
    (h : r.addParent child parent = .ok r') :
    ∃ c p, r.find? child = some c ∧ r.find? parent = some p ∧ c.id ≠ p.id ∧
      c.id ∉ r.reachable TypeEntry.parents p.id ∧
      ((p.id ∈ c.parents ∧ r' = r) ∨
        (p.id ∉ c.parents ∧ r' = (r.link c.id p.id).extendClosures
          (p.id :: (r.link c.id p.id).reachable TypeEntry.parents p.id)
          (c.id :: (r.link c.id p.id).reachable TypeEntry.children c.id))) := by
  unfold addParent at h
  cases hc : r.require child with
  | error e => simp [hc] at h; cases h
  | ok c =>
    cases hp : r.require parent with
    | error e => simp [hc, hp] at h; cases h
    | ok p =>
      refine ⟨c, p, require_eq_ok.mp hc, require_eq_ok.mp hp, ?_⟩
      simp only [hc, hp, bind, Except.bind] at h
      split at h
      · simp [throw, throwThe, MonadExceptOf.throw] at h
      · next hcyc =>
        simp only [Bool.or_eq_true, beq_iff_eq, List.contains_iff_mem, not_or] at hcyc
        refine ⟨hcyc.1, hcyc.2, ?_⟩
        split at h
        · next hdup =>
          simp only [pure, Except.pure, Except.ok.injEq] at h
          exact .inl ⟨List.contains_iff_mem.mp hdup, h.symm⟩
        · next hnew =>
          simp only [pure, Except.pure, Except.ok.injEq] at h
          exact .inr ⟨fun hmem => hnew (List.contains_iff_mem.mpr hmem), h.symm⟩

end TypeReflection.Registry
