import TypeReflection.Proofs.Registry.Edges
import TypeReflection.Registry.Registration

/-!
# The registry's invariant

Every registry reachable from `Registry.fresh` by registering types, edges, properties and enums
is well formed (`reachable_wellFormed`):

* names are distinct, ids are distinct and below the next id to give, so each name finds exactly
  one type and each type is found by its own name;
* the parent and child lists name only registered types, list each at most once, and mirror
  each other: `p` is a parent of `c` exactly when `c` is a child of `p`;
* the parent edges have no cycle;
* each type's remembered ancestors are exactly the types it reaches by one or more parent edges,
  and its remembered descendants those it reaches by one or more child edges.

So asking by name whether one type derives from another answers the question about the edges.

The invariant is split in two. `Shape` holds everything but the remembered closures, and is what
rebuilding the closures from scratch needs (`Shape.rebuildClosures`); `WellFormed` adds the
closures. Each operation gets one preservation lemma, and `Reachable` is the induction over any
sequence of successful operations; a failed operation leaves the registry as it was.
-/

set_option autoImplicit false

namespace TypeReflection.Registry

open Relation

/-- The shape of a registry, closures apart: distinct names and ids below the next id, edges that
end at registered types and list each id once, parent and child edges that mirror each other, and
no cycle of parent edges. -/
structure Shape (r : Registry) : Prop where
  names_nodup : (r.types.map (·.name)).Nodup
  ids_nodup : r.ids.Nodup
  ids_lt : ∀ t ∈ r.types, t.id < r.nextId
  parents_live : r.EdgesLive TypeEntry.parents
  children_live : r.EdgesLive TypeEntry.children
  parents_nodup : ∀ t ∈ r.types, t.parents.Nodup
  children_nodup : ∀ t ∈ r.types, t.children.Nodup
  mirror : ∀ a b, r.Edge TypeEntry.parents a b ↔ r.Edge TypeEntry.children b a
  acyclic : ∀ i, ¬TransGen (r.Edge TypeEntry.parents) i i

/-- A well-formed registry: its shape, and remembered closures that are the true ones. -/
structure WellFormed (r : Registry) : Prop extends Shape r where
  ancestors_iff : ∀ t ∈ r.types, ∀ i,
    i ∈ t.ancestors ↔ TransGen (r.Edge TypeEntry.parents) t.id i
  descendants_iff : ∀ t ∈ r.types, ∀ i,
    i ∈ t.descendants ↔ TransGen (r.Edge TypeEntry.children) t.id i

/-! ## Consequences of the shape -/

namespace Shape

variable {r : Registry}

/-- Child edges are parent edges read backwards. -/
theorem children_eq_swap (h : r.Shape) :
    r.Edge TypeEntry.children = Function.swap (r.Edge TypeEntry.parents) := by
  funext a b
  exact propext (h.mirror b a).symm

/-- A path of child edges is a path of parent edges read backwards. -/
theorem transGen_children_iff (h : r.Shape) {a b : Nat} :
    TransGen (r.Edge TypeEntry.children) a b ↔ TransGen (r.Edge TypeEntry.parents) b a := by
  rw [h.children_eq_swap, transGen_swap]

/-- A path of zero or more child edges is one of parent edges read backwards. -/
theorem reflTransGen_children_iff (h : r.Shape) {a b : Nat} :
    ReflTransGen (r.Edge TypeEntry.children) a b ↔
      ReflTransGen (r.Edge TypeEntry.parents) b a := by
  rw [h.children_eq_swap, reflTransGen_swap]

/-- No path of parent edges leads from a type back to itself, so the sweep's exclusion of its
start loses nothing. -/
theorem mem_reachable_parents (h : r.Shape) {s x : Nat} :
    x ∈ r.reachable TypeEntry.parents s ↔ TransGen (r.Edge TypeEntry.parents) s x := by
  rw [mem_reachable h.ids_nodup h.parents_live]
  exact and_iff_left_of_imp fun hsx hxs => h.acyclic s (hxs ▸ hsx)

/-- The same for child edges. -/
theorem mem_reachable_children (h : r.Shape) {s x : Nat} :
    x ∈ r.reachable TypeEntry.children s ↔ TransGen (r.Edge TypeEntry.children) s x := by
  rw [mem_reachable h.ids_nodup h.children_live]
  refine and_iff_left_of_imp fun hsx hxs => h.acyclic s ?_
  rw [hxs, h.transGen_children_iff] at hsx
  exact hsx

/-- A type registered under the same id is the same type. -/
theorem eq_of_id_eq (h : r.Shape) {t t' : TypeEntry} (ht : t ∈ r.types) (ht' : t' ∈ r.types)
    (hid : t.id = t'.id) : t = t' :=
  List.inj_on_of_nodup_map h.ids_nodup ht ht' hid

/-- Rewriting every type without touching its name, id or edges keeps the shape. -/
theorem map {g : TypeEntry → TypeEntry} (hname : ∀ t, (g t).name = t.name)
    (hid : ∀ t, (g t).id = t.id) (hpar : ∀ t, (g t).parents = t.parents)
    (hch : ∀ t, (g t).children = t.children) (h : r.Shape) :
    ({ r with types := r.types.map g } : Registry).Shape := by
  have hedge : ∀ next : TypeEntry → List Nat, (∀ t, next (g t) = next t) → ∀ a b,
      ({ r with types := r.types.map g } : Registry).Edge next a b ↔ r.Edge next a b :=
    fun next hnext a b => edge_map hid hnext
  have hids : ({ r with types := r.types.map g } : Registry).ids = r.ids := ids_map hid
  refine ⟨?_, hids ▸ h.ids_nodup, ?_, ?_, ?_, ?_, ?_, ?_, ?_⟩
  · simpa [List.map_map, Function.comp_def, hname] using h.names_nodup
  · simp only [List.mem_map]
    rintro _ ⟨t, ht, rfl⟩
    exact hid t ▸ h.ids_lt t ht
  · simp only [EdgesLive, List.mem_map, hids]
    rintro _ ⟨t, ht, rfl⟩ i hi
    exact h.parents_live t ht i (hpar t ▸ hi)
  · simp only [EdgesLive, List.mem_map, hids]
    rintro _ ⟨t, ht, rfl⟩ i hi
    exact h.children_live t ht i (hch t ▸ hi)
  · simp only [List.mem_map]
    rintro _ ⟨t, ht, rfl⟩
    exact hpar t ▸ h.parents_nodup t ht
  · simp only [List.mem_map]
    rintro _ ⟨t, ht, rfl⟩
    exact hch t ▸ h.children_nodup t ht
  · intro a b
    rw [hedge _ hpar, hedge _ hch]
    exact h.mirror a b
  · intro i hi
    have hsame : ({ r with types := r.types.map g } : Registry).Edge TypeEntry.parents =
        r.Edge TypeEntry.parents := by
      funext a b
      exact propext (hedge _ hpar a b)
    exact h.acyclic i (hsame ▸ hi)

/-- Recomputing the closures of a registry of good shape makes it well formed. -/
theorem rebuildClosures (h : r.Shape) : r.rebuildClosures.WellFormed := by
  have hshape : r.rebuildClosures.Shape := h.map (fun _ => rfl) (fun _ => rfl) (fun _ => rfl)
    (fun _ => rfl)
  have hpar : r.rebuildClosures.Edge TypeEntry.parents = r.Edge TypeEntry.parents := by
    funext a b
    exact propext (edge_map (by intro; rfl) (by intro; rfl))
  have hch : r.rebuildClosures.Edge TypeEntry.children = r.Edge TypeEntry.children := by
    funext a b
    exact propext (edge_map (by intro; rfl) (by intro; rfl))
  refine ⟨hshape, ?_, ?_⟩
  · intro t ht i
    obtain ⟨t₀, -, rfl⟩ := List.mem_map.mp ht
    rw [hpar]
    exact h.mem_reachable_parents
  · intro t ht i
    obtain ⟨t₀, -, rfl⟩ := List.mem_map.mp ht
    rw [hch]
    exact h.mem_reachable_children

/-- Detaching a type keeps the shape: what is left of names, ids and edges is a part of what was
there, and no edge names the detached type any more. -/
theorem detach (h : r.Shape) (i : Nat) : (r.detach i).Shape := by
  have hpar : ∀ a b, (r.detach i).Edge TypeEntry.parents a b ↔
      r.Edge TypeEntry.parents a b ∧ a ≠ i ∧ b ≠ i := fun a b => edge_detach fun _ => rfl
  have hch : ∀ a b, (r.detach i).Edge TypeEntry.children a b ↔
      r.Edge TypeEntry.children a b ∧ a ≠ i ∧ b ≠ i := fun a b => edge_detach fun _ => rfl
  have hids : ∀ j, j ∈ (r.detach i).ids ↔ j ∈ r.ids ∧ j ≠ i := by
    intro j
    simp [ids_detach, List.mem_filter]
  refine ⟨?_, ?_, ?_, ?_, ?_, ?_, ?_, ?_, ?_⟩
  · have hsub : ((r.types.filter (·.id != i)).map (·.name)).Sublist (r.types.map (·.name)) :=
      List.Sublist.map _ List.filter_sublist
    simpa [Registry.detach, List.map_map, Function.comp_def] using h.names_nodup.sublist hsub
  · rw [ids_detach]
    exact h.ids_nodup.filter _
  · intro t ht
    obtain ⟨t₀, ht₀, -, rfl⟩ := mem_detach.mp ht
    exact h.ids_lt t₀ ht₀
  · intro t ht j hj
    obtain ⟨t₀, ht₀, -, rfl⟩ := mem_detach.mp ht
    rw [List.mem_filter, bne_iff_ne] at hj
    exact (hids j).mpr ⟨h.parents_live t₀ ht₀ j hj.1, hj.2⟩
  · intro t ht j hj
    obtain ⟨t₀, ht₀, -, rfl⟩ := mem_detach.mp ht
    rw [List.mem_filter, bne_iff_ne] at hj
    exact (hids j).mpr ⟨h.children_live t₀ ht₀ j hj.1, hj.2⟩
  · intro t ht
    obtain ⟨t₀, ht₀, -, rfl⟩ := mem_detach.mp ht
    exact (h.parents_nodup t₀ ht₀).filter _
  · intro t ht
    obtain ⟨t₀, ht₀, -, rfl⟩ := mem_detach.mp ht
    exact (h.children_nodup t₀ ht₀).filter _
  · intro a b
    rw [hpar, hch, h.mirror a b]
    tauto
  · intro j hj
    have hsub : (r.detach i).Edge TypeEntry.parents ≤ r.Edge TypeEntry.parents :=
      fun a b hab => ((hpar a b).mp hab).1
    exact h.acyclic j (TransGen.mono hsub _ _ hj)

/-- Removing a type from a registry of good shape leaves it well formed. -/
theorem removeType (h : r.Shape) (i : Nat) : (r.removeType i).WellFormed := by
  rw [removeType_eq]
  exact (h.detach i).rebuildClosures

end Shape

/-! ## Registering a type -/

/-- With no edge out of `a`, no path starts at `a`. -/
theorem not_transGen_of_forall_not {R : Nat → Nat → Prop} {a c : Nat} (h : ∀ b, ¬R a b) :
    ¬TransGen R a c := by
  rw [TransGen.head'_iff]
  rintro ⟨b, hab, -⟩
  exact h b hab

/-- Appending a type whose lists are empty keeps every edge. -/
theorem edge_push {r : Registry} {e : TypeEntry} {n : Nat} {next : TypeEntry → List Nat}
    (hnext : next e = []) {a b : Nat} :
    ({ r with types := r.types ++ [e], nextId := n } : Registry).Edge next a b ↔
      r.Edge next a b := by
  simp only [Edge, List.mem_append, List.mem_singleton]
  constructor
  · rintro ⟨t, ht | rfl, hid, hb⟩
    · exact ⟨t, ht, hid, hb⟩
    · simp [hnext] at hb
  · rintro ⟨t, ht, hid, hb⟩
    exact ⟨t, .inl ht, hid, hb⟩

/-- The type a registration appends: named `name`, with the next id and nothing else yet. -/
def newEntry (r : Registry) (name : String) (native : NativeClass)
    (serializer : Option Serializer) (decorators : DecoratorList) : TypeEntry :=
  ⟨name, r.nextId, native, [], [], [], [], [], decorators, serializer⟩

/-- Registering a type under a name no type has keeps a registry well formed: the new type has the
next id, which no type has, and no edge touches it. -/
theorem WellFormed.push {r : Registry} (h : r.WellFormed) {name : String} {native : NativeClass}
    {serializer : Option Serializer} {decorators : DecoratorList} (hname : r.find? name = none) :
    ({ r with
      types := r.types ++ [r.newEntry name native serializer decorators]
      nextId := r.nextId + 1 } : Registry).WellFormed := by
  set e := r.newEntry name native serializer decorators with he
  have hpar : ∀ a b, ({ r with types := r.types ++ [e], nextId := r.nextId + 1 } :
      Registry).Edge TypeEntry.parents a b ↔ r.Edge TypeEntry.parents a b :=
    fun a b => edge_push rfl
  have hch : ∀ a b, ({ r with types := r.types ++ [e], nextId := r.nextId + 1 } :
      Registry).Edge TypeEntry.children a b ↔ r.Edge TypeEntry.children a b :=
    fun a b => edge_push rfl
  have hparEq := funext fun a => funext fun b => propext (hpar a b)
  have hchEq := funext fun a => funext fun b => propext (hch a b)
  have hfresh : r.nextId ∉ r.ids := by
    intro hmem
    obtain ⟨t, ht, hid⟩ := List.mem_map.mp hmem
    exact absurd (h.ids_lt t ht) (by omega)
  have hnone : ∀ b, ¬r.Edge TypeEntry.parents r.nextId b := by
    rintro b ⟨t, ht, hid, -⟩
    exact absurd (h.ids_lt t ht) (by omega)
  have hnone' : ∀ b, ¬r.Edge TypeEntry.children r.nextId b := by
    rintro b ⟨t, ht, hid, -⟩
    exact absurd (h.ids_lt t ht) (by omega)
  have hids : ∀ j, j ∈ r.ids →
      j ∈ ({ r with types := r.types ++ [e], nextId := r.nextId + 1 } : Registry).ids := by
    intro j hj
    simp only [ids, List.map_append, List.mem_append]
    exact .inl hj
  refine ⟨⟨?_, ?_, ?_, ?_, ?_, ?_, ?_, ?_, ?_⟩, ?_, ?_⟩
  · rw [List.map_append, List.nodup_append]
    refine ⟨h.names_nodup, by simp, ?_⟩
    intro a ha b hb hab
    obtain ⟨t, ht, rfl⟩ := List.mem_map.mp ha
    simp only [List.map_cons, List.map_nil, List.mem_singleton] at hb
    subst hb
    exact List.find?_eq_none.mp hname t ht (by simp [hab])
  · rw [ids, List.map_append, List.nodup_append]
    refine ⟨h.ids_nodup, by simp, ?_⟩
    intro a ha b hb hab
    simp only [List.map_cons, List.map_nil, List.mem_singleton] at hb
    subst hab hb
    exact hfresh ha
  · intro t ht
    rcases List.mem_append.mp ht with ht | ht
    · exact Nat.lt_succ_of_lt (h.ids_lt t ht)
    · simp [List.mem_singleton.mp ht, he, newEntry]
  · intro t ht j hj
    rcases List.mem_append.mp ht with ht | ht
    · exact hids j (h.parents_live t ht j hj)
    · simp [List.mem_singleton.mp ht, he, newEntry] at hj
  · intro t ht j hj
    rcases List.mem_append.mp ht with ht | ht
    · exact hids j (h.children_live t ht j hj)
    · simp [List.mem_singleton.mp ht, he, newEntry] at hj
  · intro t ht
    rcases List.mem_append.mp ht with ht | ht
    · exact h.parents_nodup t ht
    · simp [List.mem_singleton.mp ht, he, newEntry]
  · intro t ht
    rcases List.mem_append.mp ht with ht | ht
    · exact h.children_nodup t ht
    · simp [List.mem_singleton.mp ht, he, newEntry]
  · intro a b
    rw [hpar, hch]
    exact h.mirror a b
  · intro i
    rw [hparEq]
    exact h.acyclic i
  · intro t ht i
    rw [hparEq]
    rcases List.mem_append.mp ht with ht | ht
    · exact h.ancestors_iff t ht i
    · rw [List.mem_singleton.mp ht]
      simpa [he, newEntry] using not_transGen_of_forall_not hnone
  · intro t ht i
    rw [hchEq]
    rcases List.mem_append.mp ht with ht | ht
    · exact h.descendants_iff t ht i
    · rw [List.mem_singleton.mp ht]
      simpa [he, newEntry] using not_transGen_of_forall_not hnone'

/-- After the type found under `name` is removed, no type has that name. -/
theorem Shape.find?_removeType {r : Registry} (h : r.Shape) {name : String} {old : TypeEntry}
    (hold : r.find? name = some old) : (r.removeType old.id).find? name = none := by
  obtain ⟨hmem, hname⟩ := find?_eq_some hold
  rw [find?, List.find?_eq_none]
  intro t ht heq
  obtain ⟨t₁, ht₁, rfl⟩ := List.mem_map.mp ht
  obtain ⟨t₀, ht₀, hne, rfl⟩ := mem_detach.mp ht₁
  have hsame : t₀.name = old.name := by simpa [hname] using heq
  exact hne (congrArg TypeEntry.id (List.inj_on_of_nodup_map h.names_nodup ht₀ hmem hsame))

/-- Registering a type keeps a registry well formed, whether the name was free or its old type
is replaced. -/
theorem WellFormed.addType {r : Registry} (h : r.WellFormed) (name : String)
    (native : NativeClass) (serializer : Option Serializer) (decorators : DecoratorList) :
    (r.addType name native serializer decorators).1.WellFormed := by
  unfold Registry.addType
  split
  · next old hold =>
    exact (h.toShape.removeType old.id).push (h.toShape.find?_removeType hold)
  · next hnone =>
    exact h.push hnone

/-! ## Properties and enums -/

/-- Rewriting every type without touching its name, id, edges or closures keeps a registry well
formed. -/
theorem WellFormed.map {r : Registry} {g : TypeEntry → TypeEntry}
    (hname : ∀ t, (g t).name = t.name) (hid : ∀ t, (g t).id = t.id)
    (hpar : ∀ t, (g t).parents = t.parents) (hch : ∀ t, (g t).children = t.children)
    (hanc : ∀ t, (g t).ancestors = t.ancestors) (hdesc : ∀ t, (g t).descendants = t.descendants)
    (h : r.WellFormed) : ({ r with types := r.types.map g } : Registry).WellFormed := by
  have hparEq : ({ r with types := r.types.map g } : Registry).Edge TypeEntry.parents =
      r.Edge TypeEntry.parents := funext fun _ => funext fun _ => propext (edge_map hid hpar)
  have hchEq : ({ r with types := r.types.map g } : Registry).Edge TypeEntry.children =
      r.Edge TypeEntry.children := funext fun _ => funext fun _ => propext (edge_map hid hch)
  refine ⟨h.toShape.map hname hid hpar hch, ?_, ?_⟩
  · intro t ht i
    obtain ⟨t₀, ht₀, rfl⟩ := List.mem_map.mp ht
    rw [hparEq, hanc, hid]
    exact h.ancestors_iff t₀ ht₀ i
  · intro t ht i
    obtain ⟨t₀, ht₀, rfl⟩ := List.mem_map.mp ht
    rw [hchEq, hdesc, hid]
    exact h.descendants_iff t₀ ht₀ i

/-- Registering a property changes only the owner's properties. -/
theorem WellFormed.addProperty {r r' : Registry} (h : r.WellFormed) {owner : String}
    {p : Property} (hr : r.addProperty owner p = .ok r') : r'.WellFormed := by
  unfold Registry.addProperty at hr
  cases ht : r.require owner with
  | error e => simp [ht] at hr; cases hr
  | ok t =>
    simp only [ht, bind, Except.bind] at hr
    split at hr
    · simp [throw, throwThe, MonadExceptOf.throw] at hr
    · simp only [pure, Except.pure, Except.ok.injEq] at hr
      subst hr
      refine h.map ?_ ?_ ?_ ?_ ?_ ?_ <;> intro t' <;> split <;> rfl

/-- Being well formed is about the types and the next id alone. -/
theorem WellFormed.of_types_eq {r r' : Registry} (h : r.WellFormed) (ht : r'.types = r.types)
    (hn : r'.nextId = r.nextId) : r'.WellFormed := by
  obtain ⟨types, enums, nextId⟩ := r
  obtain ⟨types', enums', nextId'⟩ := r'
  simp only at ht hn
  subst ht hn
  obtain ⟨⟨h1, h2, h3, h4, h5, h6, h7, h8, h9⟩, h10, h11⟩ := h
  exact ⟨⟨h1, h2, h3, h4, h5, h6, h7, h8, h9⟩, h10, h11⟩

/-- Registering an enum leaves the types alone. -/
theorem WellFormed.putEnum {r : Registry} (h : r.WellFormed) (e : EnumType) :
    (r.putEnum e).WellFormed := by
  unfold Registry.putEnum
  split
  · exact h.of_types_eq (by rfl) (by rfl)
  · exact h.of_types_eq (by rfl) (by rfl)

/-! ## Adding an edge -/

/-- Linking `c` to its new parent `p` keeps the shape when the edge is new and `p` does not reach
`c`: the one new parent edge cannot close a cycle, and the child edge added beside it keeps the
two lists mirrored. -/
theorem Shape.link {r : Registry} (h : r.Shape) {c p : TypeEntry} (hc : c ∈ r.types)
    (hp : p ∈ r.types) (hne : c.id ≠ p.id) (hnew : p.id ∉ c.parents)
    (hacyc : ¬ReflTransGen (r.Edge TypeEntry.parents) p.id c.id) :
    (r.link c.id p.id).Shape := by
  have hcid : c.id ∈ r.ids := List.mem_map_of_mem hc
  have hpid : p.id ∈ r.ids := List.mem_map_of_mem hp
  have hpar : ∀ a b, (r.link c.id p.id).Edge TypeEntry.parents a b ↔
      r.Edge TypeEntry.parents a b ∨ (a = c.id ∧ b = p.id) := fun _ _ => edge_parents_link hne hcid
  have hch : ∀ a b, (r.link c.id p.id).Edge TypeEntry.children a b ↔
      r.Edge TypeEntry.children a b ∨ (a = p.id ∧ b = c.id) := fun _ _ => edge_children_link hne hpid
  -- `c` is not yet a child of `p`, since `p` is not yet a parent of `c`.
  have hold : c.id ∉ p.children := by
    intro hmem
    obtain ⟨t, ht, htc, hpt⟩ := (h.mirror c.id p.id).mpr ⟨p, hp, rfl, hmem⟩
    exact hnew (h.eq_of_id_eq ht hc htc ▸ hpt)
  refine ⟨?_, ?_, ?_, ?_, ?_, ?_, ?_, ?_, ?_⟩
  · rw [link_types hne, List.map_map]
    exact h.names_nodup
  · rw [ids_link hne]
    exact h.ids_nodup
  · intro t ht
    obtain ⟨t₀, ht₀, rfl⟩ := (mem_link hne).mp ht
    exact h.ids_lt t₀ ht₀
  · intro t ht j hj
    obtain ⟨t₀, ht₀, rfl⟩ := (mem_link hne).mp ht
    rw [ids_link hne]
    dsimp only at hj
    split at hj
    · rcases List.mem_append.mp hj with hj | hj
      · exact h.parents_live t₀ ht₀ j hj
      · exact List.mem_singleton.mp hj ▸ hpid
    · exact h.parents_live t₀ ht₀ j hj
  · intro t ht j hj
    obtain ⟨t₀, ht₀, rfl⟩ := (mem_link hne).mp ht
    rw [ids_link hne]
    dsimp only at hj
    split at hj
    · rcases List.mem_append.mp hj with hj | hj
      · exact h.children_live t₀ ht₀ j hj
      · exact List.mem_singleton.mp hj ▸ hcid
    · exact h.children_live t₀ ht₀ j hj
  · intro t ht
    obtain ⟨t₀, ht₀, rfl⟩ := (mem_link hne).mp ht
    dsimp only
    split
    · next htc =>
      rw [h.eq_of_id_eq ht₀ hc htc]
      exact (h.parents_nodup c hc).append (List.nodup_singleton _)
        (List.disjoint_singleton.mpr hnew)
    · exact h.parents_nodup t₀ ht₀
  · intro t ht
    obtain ⟨t₀, ht₀, rfl⟩ := (mem_link hne).mp ht
    dsimp only
    split
    · next htp =>
      rw [h.eq_of_id_eq ht₀ hp htp]
      exact (h.children_nodup p hp).append (List.nodup_singleton _)
        (List.disjoint_singleton.mpr hold)
    · exact h.children_nodup t₀ ht₀
  · intro a b
    rw [hpar, hch, h.mirror a b]
    tauto
  · intro i hi
    rcases (transGen_addEdge hpar).mp hi with hi | ⟨hic, hpi⟩
    · exact h.acyclic i hi
    · exact hacyc (hpi.trans hic)

/-- Adding an edge keeps a registry well formed. The cycle check is what keeps the parent edges
acyclic; the duplicate check keeps the lists free of repeats; and the closures grown from the two
sweeps taken after the edge is added are exactly the new closures (`transGen_addEdge_update`),
ancestors growing below the child and descendants above the parent. -/
theorem WellFormed.addParent {r r' : Registry} (h : r.WellFormed) {child parent : String}
    (hr : r.addParent child parent = .ok r') : r'.WellFormed := by
  obtain ⟨c, p, hc, hp, hne, hnr, ⟨-, rfl⟩ | ⟨hnew, rfl⟩⟩ := addParent_ok hr
  · exact h
  have hcm : c ∈ r.types := (find?_eq_some hc).1
  have hpm : p ∈ r.types := (find?_eq_some hp).1
  have hacyc : ¬ReflTransGen (r.Edge TypeEntry.parents) p.id c.id := by
    rw [reflTransGen_iff_eq_or_transGen]
    rintro (heq | hpc)
    · exact hne heq
    · exact hnr (h.mem_reachable_parents.mpr hpc)
  set r₁ := r.link c.id p.id with hr₁
  have h₁ : r₁.Shape := h.toShape.link hcm hpm hne hnew hacyc
  have hpar : ∀ a b, r₁.Edge TypeEntry.parents a b ↔
      r.Edge TypeEntry.parents a b ∨ (a = c.id ∧ b = p.id) :=
    fun _ _ => edge_parents_link hne (List.mem_map_of_mem hcm)
  have hch : ∀ a b, r₁.Edge TypeEntry.children a b ↔
      r.Edge TypeEntry.children a b ∨ (a = p.id ∧ b = c.id) :=
    fun _ _ => edge_children_link hne (List.mem_map_of_mem hpm)
  -- The two sweeps, read as paths in the linked registry.
  have hup : ∀ x, x ∈ p.id :: r₁.reachable TypeEntry.parents p.id ↔
      ReflTransGen (r₁.Edge TypeEntry.parents) p.id x :=
    fun _ => mem_cons_reachable h₁.ids_nodup h₁.parents_live
  have hdown : ∀ x, x ∈ c.id :: r₁.reachable TypeEntry.children c.id ↔
      ReflTransGen (r₁.Edge TypeEntry.children) c.id x :=
    fun _ => mem_cons_reachable h₁.ids_nodup h₁.children_live
  -- Linking leaves the remembered closures, which were right for the old edges.
  have hold : ∀ t ∈ r₁.types, ∃ t₀ ∈ r.types, t.id = t₀.id ∧ t.ancestors = t₀.ancestors ∧
      t.descendants = t₀.descendants := by
    intro t ht
    obtain ⟨t₀, ht₀, rfl⟩ := (mem_link hne).mp ht
    exact ⟨t₀, ht₀, rfl, rfl, rfl⟩
  have hparEq : (r₁.extendClosures (p.id :: r₁.reachable TypeEntry.parents p.id)
      (c.id :: r₁.reachable TypeEntry.children c.id)).Edge TypeEntry.parents =
      r₁.Edge TypeEntry.parents :=
    funext fun _ => funext fun _ => propext (edge_extendClosures fun _ _ _ => rfl)
  have hchEq : (r₁.extendClosures (p.id :: r₁.reachable TypeEntry.parents p.id)
      (c.id :: r₁.reachable TypeEntry.children c.id)).Edge TypeEntry.children =
      r₁.Edge TypeEntry.children :=
    funext fun _ => funext fun _ => propext (edge_extendClosures fun _ _ _ => rfl)
  refine ⟨?_, ?_, ?_⟩
  · rw [extendClosures_eq]
    exact h₁.map (fun _ => rfl) (fun _ => rfl) (fun _ => rfl) (fun _ => rfl)
  · intro t ht i
    rw [hparEq]
    rw [extendClosures_eq] at ht
    obtain ⟨t₁, ht₁, rfl⟩ := List.mem_map.mp ht
    obtain ⟨t₀, ht₀, hid, hanc, -⟩ := hold t₁ ht₁
    rw [ ← transGen_addEdge_update hpar (hid ▸ hanc ▸ h.ancestors_iff t₀ ht₀ i)]
    dsimp only
    split
    · next hin =>
      have hbelow := h₁.reflTransGen_children_iff.mp ((hdown _).mp hin)
      rw [mem_joinIds, hup]
      tauto
    · next hout =>
      have hnot : ¬ReflTransGen (r₁.Edge TypeEntry.parents) t₁.id c.id :=
        fun hbelow => hout ((hdown _).mpr (h₁.reflTransGen_children_iff.mpr hbelow))
      tauto
  · intro t ht i
    rw [hchEq]
    rw [extendClosures_eq] at ht
    obtain ⟨t₁, ht₁, rfl⟩ := List.mem_map.mp ht
    obtain ⟨t₀, ht₀, hid, -, hdesc⟩ := hold t₁ ht₁
    rw [ ← transGen_addEdge_update hch (hid ▸ hdesc ▸ h.descendants_iff t₀ ht₀ i)]
    dsimp only
    split
    · next hin =>
      have habove := h₁.reflTransGen_children_iff.mpr ((hup _).mp hin)
      rw [mem_joinIds, hdown]
      tauto
    · next hout =>
      have hnot : ¬ReflTransGen (r₁.Edge TypeEntry.children) t₁.id p.id :=
        fun habove => hout ((hup _).mpr (h₁.reflTransGen_children_iff.mp habove))
      tauto

end TypeReflection.Registry
