import Mathlib.Logic.Relation
import Mathlib.Data.List.Nodup
import Mathlib.Data.List.Perm.Subperm
import TypeReflection.Registry.Basic

/-!
# What the registry's sweep reaches

`Registry.reachable` is a breadth-first sweep: it keeps the ids seen so far and the frontier
found last, adds the successors of the frontier that are new, and stops when none are, or after
as many rounds as there are types. This file shows that the sweep computes exactly the ids
reachable from the start by one or more edges, the start itself left out.

Two facts about the registry carry the proof: ids are pairwise distinct, and every edge ends at a
registered type. The second bounds what the sweep can ever see by the registered ids, so each
round that adds something brings the seen list closer to that bound, and the fuel of one round
per type never runs out before the sweep closes.

The sweep itself is stated over any successor function (`grow_spec`), with its invariant
`Sweep`; `mem_reachable` instantiates it with the registry's edges.
-/

set_option autoImplicit false

namespace TypeReflection.Registry

open Relation

/-- The ids of the registered types, in order. -/
def ids (r : Registry) : List Nat := r.types.map (·.id)

/-- One edge given by `next`: the type with id `a` lists `b`. -/
def Edge (r : Registry) (next : TypeEntry → List Nat) (a b : Nat) : Prop :=
  ∃ t ∈ r.types, t.id = a ∧ b ∈ next t

/-- Every edge given by `next` ends at a registered type. -/
def EdgesLive (r : Registry) (next : TypeEntry → List Nat) : Prop :=
  ∀ t ∈ r.types, ∀ i ∈ next t, i ∈ r.ids

/-! ## Lists without repeats -/

/-- `eraseDups` leaves no repeats. -/
theorem nodup_eraseDups (l : List Nat) : l.eraseDups.Nodup := by
  -- `eraseDups` keeps the head and recurses on the tail filtered, so induct on a length bound.
  suffices h : ∀ n (l : List Nat), l.length ≤ n → l.eraseDups.Nodup from h _ l (Nat.le_refl _)
  intro n
  induction n with
  | zero =>
    intro l hl
    rw [List.eq_nil_of_length_eq_zero (Nat.le_zero.mp hl)]
    simp
  | succ n ih =>
    intro l hl
    match l with
    | [] => simp
    | a :: as =>
      rw [List.eraseDups_cons, List.nodup_cons]
      have hshorter : (as.filter fun b => !b == a).length ≤ n := by
        have := List.length_filter_le (fun b => !b == a) as
        simp only [List.length_cons] at hl
        omega
      refine ⟨?_, ih _ hshorter⟩
      simp [List.mem_eraseDups, List.mem_filter]

/-- A list without repeats, inside another, as long as it, holds all of it. -/
theorem subset_of_nodup_of_length_le {l₁ l₂ : List Nat} (hnd : l₁.Nodup) (hsub : l₁ ⊆ l₂)
    (hlen : l₂.length ≤ l₁.length) : l₂ ⊆ l₁ := by
  have hperm := (hnd.subperm hsub).perm_of_length_le hlen
  intro x hx
  exact hperm.mem_iff.mpr hx

/-! ## Looking a type up by id -/

/-- The type found by id is registered and has that id. -/
theorem byId?_eq_some {r : Registry} {i : Nat} {t : TypeEntry} (h : r.byId? i = some t) :
    t ∈ r.types ∧ t.id = i := by
  unfold byId? at h
  exact ⟨List.mem_of_find?_eq_some h, by simpa using List.find?_some h⟩

/-- With distinct ids, every registered type is found by its id. -/
theorem byId?_of_mem {r : Registry} (hids : r.ids.Nodup) {t : TypeEntry} (ht : t ∈ r.types) :
    r.byId? t.id = some t := by
  have hsome : (r.byId? t.id).isSome := by
    unfold byId?
    rw [List.find?_isSome]
    exact ⟨t, ht, by simp⟩
  obtain ⟨t', ht'⟩ := Option.isSome_iff_exists.mp hsome
  obtain ⟨hmem, hid⟩ := byId?_eq_some ht'
  rw [ht', List.inj_on_of_nodup_map hids hmem ht hid]

/-- The successors of one id, as the sweep reads them: the ids that its type lists. -/
theorem mem_successors {r : Registry} (hids : r.ids.Nodup) {next : TypeEntry → List Nat}
    {a b : Nat} :
    (b ∈ match r.byId? a with
      | some t => next t
      | none => []) ↔ r.Edge next a b := by
  constructor
  · intro hb
    split at hb
    · next t ht =>
      obtain ⟨hmem, hid⟩ := byId?_eq_some ht
      exact ⟨t, hmem, hid, hb⟩
    · simp at hb
  · rintro ⟨t, ht, rfl, hb⟩
    rw [byId?_of_mem hids ht]
    exact hb

/-! ## The sweep -/

section Sweep

variable {E : Nat → Nat → Prop} {P : Nat → Prop} {live : List Nat}

/-- The invariant of the sweep: the seen ids have no repeats, contain the frontier, satisfy `P`
and lie in `live`; and every seen id off the frontier already has all its successors seen. -/
structure Sweep (E : Nat → Nat → Prop) (P : Nat → Prop) (live seen frontier : List Nat) :
    Prop where
  nodup : seen.Nodup
  frontier_sub : frontier ⊆ seen
  sound : ∀ x ∈ seen, P x
  sub_live : seen ⊆ live
  closed : ∀ x ∈ seen, x ∉ frontier → ∀ y, E x y → y ∈ seen

/-- With `step` giving the successors of a list, `P` closed under them and `live` holding every
successor, a sweep that starts in its invariant and has a round of fuel for every live id it has
not seen yet ends with a list that satisfies `P`, keeps what was seen, and holds the successors
of everything in it. -/
theorem grow_spec {step : List Nat → List Nat}
    (hstep : ∀ ids y, y ∈ step ids ↔ ∃ x ∈ ids, E x y)
    (hP : ∀ x y, P x → E x y → P y) (hlive : ∀ x y, E x y → y ∈ live) :
    ∀ (fuel : Nat) (seen frontier : List Nat), Sweep E P live seen frontier →
      live.length ≤ seen.length + fuel →
      (∀ x ∈ reachable.grow step fuel seen frontier, P x) ∧
        seen ⊆ reachable.grow step fuel seen frontier ∧
        ∀ x ∈ reachable.grow step fuel seen frontier, ∀ y, E x y →
          y ∈ reachable.grow step fuel seen frontier := by
  intro fuel
  induction fuel with
  | zero =>
    -- Out of fuel, the seen ids are all the live ids, so nothing is left outside them.
    intro seen frontier hs hlen
    have hall : live ⊆ seen := subset_of_nodup_of_length_le hs.nodup hs.sub_live (by omega)
    refine ⟨hs.sound, fun _ hx => hx, fun x _ y hxy => hall (hlive x y hxy)⟩
  | succ fuel ih =>
    intro seen frontier hs hlen
    rw [reachable.grow]
    set fresh := (step frontier).eraseDups.filter (fun x => !seen.contains x) with hfresh
    have hmem_fresh : ∀ y, y ∈ fresh ↔ (∃ x ∈ frontier, E x y) ∧ y ∉ seen := by
      intro y
      simp [hfresh, List.mem_filter, List.mem_eraseDups, hstep]
    split
    · next hempty =>
      -- No new id: the successors of the frontier are seen already.
      have hnone : ∀ y, (∃ x ∈ frontier, E x y) → y ∈ seen := by
        intro y hy
        by_contra hn
        have hy' : y ∈ fresh := (hmem_fresh y).mpr ⟨hy, hn⟩
        rw [List.isEmpty_iff.mp hempty] at hy'
        exact List.not_mem_nil hy'
      refine ⟨hs.sound, fun _ hx => hx, fun x hx y hxy => ?_⟩
      by_cases hxf : x ∈ frontier
      · exact hnone y ⟨x, hxf, hxy⟩
      · exact hs.closed x hx hxf y hxy
    · next hne =>
      have hpos : 0 < fresh.length := by
        cases hf : fresh with
        | nil => simp [hf] at hne
        | cons _ _ => simp
      have hs' : Sweep E P live (seen ++ fresh) fresh := by
        refine ⟨?_, List.subset_append_right _ _, ?_, ?_, ?_⟩
        · rw [List.nodup_append]
          refine ⟨hs.nodup, (nodup_eraseDups _).filter _, ?_⟩
          intro a ha b hb hab
          exact ((hmem_fresh b).mp hb).2 (hab ▸ ha)
        · intro x hx
          rcases List.mem_append.mp hx with hx | hx
          · exact hs.sound x hx
          · obtain ⟨⟨w, hw, hwx⟩, -⟩ := (hmem_fresh x).mp hx
            exact hP w x (hs.sound w (hs.frontier_sub hw)) hwx
        · intro x hx
          rcases List.mem_append.mp hx with hx | hx
          · exact hs.sub_live hx
          · obtain ⟨⟨w, -, hwx⟩, -⟩ := (hmem_fresh x).mp hx
            exact hlive w x hwx
        · intro x hx hxf y hxy
          rcases List.mem_append.mp hx with hx | hx
          · by_cases hxo : x ∈ frontier
            · by_cases hy : y ∈ seen
              · exact List.mem_append_left _ hy
              · exact List.mem_append_right _ ((hmem_fresh y).mpr ⟨⟨x, hxo, hxy⟩, hy⟩)
            · exact List.mem_append_left _ (hs.closed x hx hxo y hxy)
          · exact absurd hx hxf
      have hlen' : live.length ≤ (seen ++ fresh).length + fuel := by
        rw [List.length_append]
        omega
      obtain ⟨hsound, hkeep, hclosed⟩ := ih (seen ++ fresh) fresh hs' hlen'
      exact ⟨hsound, fun x hx => hkeep (List.mem_append_left _ hx), hclosed⟩

end Sweep

/-- With distinct ids and every edge ending at a registered type, the sweep from `s` reaches
exactly the ids joined to `s` by one or more edges, other than `s` itself. -/
theorem mem_reachable {r : Registry} {next : TypeEntry → List Nat} (hids : r.ids.Nodup)
    (hlive : r.EdgesLive next) {s x : Nat} :
    x ∈ r.reachable next s ↔ TransGen (r.Edge next) s x ∧ x ≠ s := by
  unfold reachable
  simp only [List.mem_filter, bne_iff_ne, ne_eq]
  set step : List Nat → List Nat := fun ids => ids.flatMap fun id =>
    match r.byId? id with
    | some t => next t
    | none => [] with hstep_def
  have hstep : ∀ ids y, y ∈ step ids ↔ ∃ x ∈ ids, r.Edge next x y := by
    intro ids y
    simp only [hstep_def, List.mem_flatMap, mem_successors hids]
  have hedge_live : ∀ a b, r.Edge next a b → b ∈ r.ids := by
    rintro a b ⟨t, ht, -, hb⟩
    exact hlive t ht b hb
  set first := (step [s]).eraseDups with hfirst
  have hmem_first : ∀ y, y ∈ first ↔ r.Edge next s y := by
    intro y
    simp [hfirst, List.mem_eraseDups, hstep]
  have hstart : Sweep (r.Edge next) (TransGen (r.Edge next) s) r.ids first first := by
    refine ⟨nodup_eraseDups _, fun _ hx => hx, ?_, ?_, ?_⟩
    · intro y hy
      exact TransGen.single ((hmem_first y).mp hy)
    · intro y hy
      exact hedge_live s y ((hmem_first y).mp hy)
    · intro y hy hny
      exact absurd hy hny
  have hfuel : r.ids.length ≤ first.length + r.types.length := by
    simp [ids]
  obtain ⟨hsound, hkeep, hclosed⟩ :=
    grow_spec hstep (fun _ _ hx hxy => hx.tail hxy) hedge_live _ first first hstart hfuel
  -- Every id joined to `s` is in the result: induction along the path from `s`.
  have hcomplete : ∀ y, TransGen (r.Edge next) s y →
      y ∈ reachable.grow step r.types.length first first := by
    intro y hy
    induction hy with
    | single h => exact hkeep ((hmem_first _).mpr h)
    | tail _ hyz ih => exact hclosed _ ih _ hyz
  exact and_congr_left fun _ => ⟨hsound x, hcomplete x⟩

/-- With the start put in front, the sweep gives the ids reachable by zero or more edges. -/
theorem mem_cons_reachable {r : Registry} {next : TypeEntry → List Nat} (hids : r.ids.Nodup)
    (hlive : r.EdgesLive next) {s x : Nat} :
    x ∈ s :: r.reachable next s ↔ ReflTransGen (r.Edge next) s x := by
  rw [List.mem_cons, mem_reachable hids hlive, reflTransGen_iff_eq_or_transGen]
  by_cases hx : x = s
  · simp [hx]
  · simp [hx]

end TypeReflection.Registry
