import TypeReflection.Proofs.Disk.Run

/-!
# Finding headers on a memory disk

On a disk whose names are canonical (`MemoryDisk.Named`), walking a directory given by its
canonical path reads the disk and changes nothing, and every path it finds is the canonical
path of a header below that directory that does not lie in the excluded directory
(`HeaderBelow`). The walk over the entries of one directory is handled once, for any way of
visiting subdirectories (`collectEntries_eq_ok`); the walk of the whole tree follows by
induction on the depth.
-/

set_option autoImplicit false

namespace TypeReflection

namespace DirEntry

@[simp] theorem mem_insertByName {x e : DirEntry} {fs : List DirEntry} :
    x ∈ insertByName e fs ↔ x = e ∨ x ∈ fs := by
  induction fs with
  | nil => simp [insertByName]
  | cons f fs ih =>
    unfold insertByName
    split <;> simp [ih, or_left_comm]

@[simp] theorem mem_sortByName {x : DirEntry} {es : List DirEntry} : x ∈ sortByName es ↔ x ∈ es := by
  induction es with
  | nil => simp [sortByName]
  | cons e es ih => simp [sortByName, ← ih]

end DirEntry

open MemoryDisk

/-- `p` is the canonical path of a header below the directory `rs` and not in the directory
`outs`. -/
def HeaderBelow (outs rs : List String) (p : Path) : Prop :=
  ∃ ks, p = ⟨nameText ks⟩ ∧ (∀ n ∈ ks, IsName n) ∧ rs <+: ks ∧ ¬ outs <+: ks ∧ isHeader p = true

theorem HeaderBelow.mono {outs rs rs' : List String} {p : Path} (h : HeaderBelow outs rs' p)
    (hr : rs <+: rs') : HeaderBelow outs rs p := by
  obtain ⟨ks, rfl, hks, hpre, hout, hh⟩ := h
  exact ⟨ks, rfl, hks, hr.trans hpre, hout, hh⟩

variable {d d' : MemoryDisk} {outs rs : List String}

section
variable (hout : ∀ n ∈ outs, IsName n) (hrs : ∀ n ∈ rs, IsName n)
  {visit : Path → ExceptT IoError MemoryRun (List Path)}
  (hvisit : ∀ n found d', IsName n →
    d.runOn (visit ⟨nameText (rs ++ [n])⟩) = (.ok found, d') →
      d' = d ∧ ∀ p ∈ found, HeaderBelow outs rs p)
include hout hrs hvisit

/-- One entry of the directory `rs` leaves the disk alone and contributes headers below `rs`,
provided the visit of a subdirectory does. -/
theorem entryHeaders_eq_ok {e : DirEntry} (hn : IsName e.name) {here : List Path}
    (h : d.runOn (entryHeaders ⟨nameText outs⟩ ⟨nameText rs⟩ visit e) = (.ok here, d')) :
    d' = d ∧ ∀ p ∈ here, HeaderBelow outs rs p := by
  have hks : ∀ m ∈ rs ++ [e.name], IsName m := by simpa [or_imp, forall_and] using ⟨hrs, hn⟩
  simp only [entryHeaders, join_nameText hrs hn] at h
  split at h
  · simp only [runOn_pure, Prod.mk.injEq, Except.ok.injEq] at h
    obtain ⟨rfl, rfl⟩ := h
    simp
  · next hskip =>
    -- a file is kept when it is a header; it lies outside `outs`, as its path was checked
    split at h
    · exact hvisit _ _ _ hn h
    · simp only [runOn_pure, Prod.mk.injEq, Except.ok.injEq] at h
      obtain ⟨rfl, rfl⟩ := h
      refine ⟨rfl, fun p hp => ?_⟩
      split at hp
      · next hh =>
        rw [List.mem_singleton] at hp
        subst hp
        refine ⟨rs ++ [e.name], rfl, hks, List.prefix_append _ _, fun hpre => hskip ?_, hh⟩
        exact (startsWith_nameText hks hout).2 hpre
      · simp at hp
    · simp only [runOn_pure, Prod.mk.injEq, Except.ok.injEq] at h
      obtain ⟨rfl, rfl⟩ := h
      simp

/-- The walk over the entries of the directory `rs` leaves the disk alone and finds headers
below `rs`, provided the visit of each subdirectory does. -/
theorem collectEntries_eq_ok {es : List DirEntry} (hes : ∀ e ∈ es, IsName e.name)
    {found : List Path}
    (h : d.runOn (collectEntries ⟨nameText outs⟩ ⟨nameText rs⟩ visit es) = (.ok found, d')) :
    d' = d ∧ ∀ p ∈ found, HeaderBelow outs rs p := by
  induction es generalizing found d' with
  | nil =>
    simp only [collectEntries, runOn_pure, Prod.mk.injEq, Except.ok.injEq] at h
    obtain ⟨rfl, rfl⟩ := h
    simp
  | cons e es ih =>
    simp only [collectEntries, runOn_bind_eq_ok, runOn_pure, Prod.mk.injEq, Except.ok.injEq] at h
    obtain ⟨here, d₁, hhere, rest, d₂, hrest, rfl, rfl⟩ := h
    obtain ⟨rfl, hbelow⟩ := entryHeaders_eq_ok hout hrs hvisit (hes e (by simp)) hhere
    obtain ⟨rfl, hbelow'⟩ := ih (fun e' he' => hes e' (List.mem_cons_of_mem _ he')) hrest
    refine ⟨rfl, fun p hp => ?_⟩
    rcases List.mem_append.1 hp with hp | hp
    · exact hbelow p hp
    · exact hbelow' p hp

end

/-- Walking the tree below a canonical directory reads the disk only, and finds headers below
that directory and outside `outs`. -/
theorem collectIn_eq_ok (hd : d.Named) (hout : ∀ n ∈ outs, IsName n) (fuel : Nat)
    (hrs : ∀ n ∈ rs, IsName n) {found : List Path}
    (h : d.runOn (collectIn ⟨nameText outs⟩ fuel ⟨nameText rs⟩) = (.ok found, d')) :
    d' = d ∧ ∀ p ∈ found, HeaderBelow outs rs p := by
  induction fuel generalizing rs found d' with
  | zero =>
    simp only [collectIn, runOn_pure, Prod.mk.injEq, Except.ok.injEq] at h
    obtain ⟨rfl, rfl⟩ := h
    simp
  | succ fuel ih =>
    simp only [collectIn, runOn_bind_eq_ok] at h
    obtain ⟨es, d₁, hread, h⟩ := h
    rw [runOn_mk, run_readDir] at hread
    obtain ⟨hdir, rfl⟩ := Prod.mk.inj hread
    -- the entries read are the children of `rs`, whose names are canonical on a named disk
    obtain ⟨names, w, hres, rfl⟩ := readDir_eq_ok hdir
    have hnames : names = rs := resolve_nameText hrs hres
    subst hnames
    have hes : ∀ e ∈ DirEntry.sortByName (d.children names), IsName e.name :=
      fun e he => hd.isName_of_mem_children (DirEntry.mem_sortByName.1 he)
    refine collectEntries_eq_ok hout hrs (fun n found' d'' hn hvisit => ?_) hes h
    have hks : ∀ m ∈ names ++ [n], IsName m := by simpa [or_imp, forall_and] using ⟨hrs, hn⟩
    obtain ⟨rfl, hfound⟩ := ih hks hvisit
    exact ⟨rfl, fun p hp => (hfound p hp).mono (List.prefix_append _ _)⟩

/-- Collecting the headers below a canonical root reads the disk only, and finds headers below
the root and outside `outs`. -/
theorem collectHeaders_eq_ok (hd : d.Named) (hout : ∀ n ∈ outs, IsName n)
    (hrs : ∀ n ∈ rs, IsName n) {found : List Path}
    (h : (collectHeaders ⟨nameText rs⟩ ⟨nameText outs⟩ : MemoryRun _).run d = (.ok found, d')) :
    d' = d ∧ ∀ p ∈ found, HeaderBelow outs rs p :=
  collectIn_eq_ok hd hout _ hrs h

end TypeReflection
