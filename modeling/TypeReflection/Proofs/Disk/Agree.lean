import TypeReflection.Proofs.Disk.Scan

/-!
# Disks that agree outside a directory

A run writes only into its output directory `outs`, so the disks it passes through agree with
the disk it started from everywhere else (`AgreeOutside`): the same working directory, the same
node at every name that does not lie in `outs`, and the same entries in every directory outside
it. Writing a file directly inside `outs` keeps this (`agreeOutside_put`).

Everything the scan reads about a canonical path outside `outs` is then the same on both disks:
the walk to it, what it names, its entries (`readDir_agree`), hence the headers found below it
(`collectIn_agree`), since the walk never enters `outs`.
-/

set_option autoImplicit false

namespace TypeReflection

namespace MemoryDisk

/-- `d'` agrees with `d` outside the directory `outs`. -/
structure AgreeOutside (outs : List String) (d d' : MemoryDisk) : Prop where
  workDir : d'.workDir = d.workDir
  node : ∀ ks, ¬ outs <+: ks → d'.node? ks = d.node? ks
  children : ∀ ks, ¬ outs <+: ks → d'.children ks = d.children ks

namespace AgreeOutside

variable {outs : List String} {d d' d'' : MemoryDisk}

theorem refl (outs : List String) (d : MemoryDisk) : AgreeOutside outs d d :=
  ⟨rfl, fun _ _ => rfl, fun _ _ => rfl⟩

theorem symm (h : AgreeOutside outs d d') : AgreeOutside outs d' d :=
  ⟨h.workDir.symm, fun ks hks => (h.node ks hks).symm, fun ks hks => (h.children ks hks).symm⟩

theorem trans (h : AgreeOutside outs d d') (h' : AgreeOutside outs d' d'') :
    AgreeOutside outs d d'' :=
  ⟨h'.workDir.trans h.workDir, fun ks hks => (h'.node ks hks).trans (h.node ks hks),
    fun ks hks => (h'.children ks hks).trans (h.children ks hks)⟩

end AgreeOutside

variable {d d' : MemoryDisk} {outs : List String}

/-- A directory whose name is not the parent of `names` keeps its entries when `names` is put. -/
theorem children_put_of_ne {names ks : List String} (node : Node) (h : names.dropLast ≠ ks) :
    (d.put names node).children ks = d.children ks := by
  unfold put children
  split
  · simp only [List.filterMap_map]
    congr 1
    funext e
    -- only entries named `names` change, and neither the old nor the new one is an entry of `ks`
    by_cases he : e.1 = names
    · simp [he, h]
    · simp [he]
  · simp [List.filterMap_append, h]

theorem agreeOutside_put (g : String) (node : Node) :
    AgreeOutside outs d (d.put (outs ++ [g]) node) := by
  refine ⟨by simp, fun ks hks => node?_put_of_ne _ fun he => hks (he ▸ List.prefix_append _ _),
    fun ks hks => children_put_of_ne _ fun he => hks ?_⟩
  simp only [← he, List.dropLast_concat, List.prefix_refl]

theorem agreeOutside_issued (n : Nat) : AgreeOutside outs d { d with issued := n } :=
  ⟨rfl, fun _ _ => rfl, fun _ _ => rfl⟩

/-! ### What the disks agree on -/

section
variable (h : AgreeOutside outs d d')
include h

/-- The walk to `cur ++ ps` is the same on both disks when the directories it steps through
lie outside `outs`; the last piece is not stepped through, so the target may lie in `outs`. -/
theorem walk_agree {cur ps : List String} (hps : ∀ n ∈ ps, IsName n)
    (hout : ¬ outs <+: cur ++ ps.dropLast) : d'.walk cur ps = d.walk cur ps := by
  induction ps generalizing cur with
  | nil => rfl
  | cons p ps ih =>
    cases ps with
    | nil => rfl
    | cons q qs =>
      have hp : IsName p := hps p List.mem_cons_self
      have hrest : ¬ outs <+: (cur ++ [p]) ++ (q :: qs).dropLast := by
        simpa [List.dropLast_cons_cons] using hout
      have hnext : ¬ outs <+: cur ++ [p] := fun hpre => hrest (hpre.trans (List.prefix_append _ _))
      simp only [walk, step_of_isName cur hp, h.node _ hnext]
      split
      · exact ih (fun n hn => hps n (List.mem_cons_of_mem _ hn)) hrest
      · rfl
      · rfl

/-- A canonical path whose parent lies outside `outs` resolves alike on both disks. -/
theorem resolve_nameText_agree' {rs : List String} (hrs : ∀ n ∈ rs, IsName n)
    (hout : ¬ outs <+: rs.dropLast) : d'.resolve ⟨nameText rs⟩ = d.resolve ⟨nameText rs⟩ := by
  unfold resolve start
  simp only [startsWith_slash_nameText, if_true, pieces_nameText hrs]
  rw [walk_agree h hrs (by simpa using hout)]

theorem resolve_nameText_agree {rs : List String} (hrs : ∀ n ∈ rs, IsName n) (hout : ¬ outs <+: rs) :
    d'.resolve ⟨nameText rs⟩ = d.resolve ⟨nameText rs⟩ :=
  resolve_nameText_agree' h hrs fun hpre => hout (hpre.trans (List.dropLast_prefix rs))

/-- The directory `outs` itself resolves alike on both disks: its walk passes through its
parents only. -/
theorem resolve_nameText_agree_self (hout : ∀ n ∈ outs, IsName n) :
    d'.resolve ⟨nameText outs⟩ = d.resolve ⟨nameText outs⟩ := by
  rcases List.eq_nil_or_concat outs with rfl | ⟨outs', g, rfl⟩
  · simp [resolve, start, startsWith_slash_nameText, pieces_nameText, walk]
  · refine resolve_nameText_agree' h hout fun hpre => ?_
    have hlen := hpre.length_le
    rw [List.concat_eq_append, List.dropLast_concat, List.length_append,
      List.length_singleton] at hlen
    exact absurd hlen (Nat.not_succ_le_self _)

theorem existing_nameText_agree {rs : List String} (hrs : ∀ n ∈ rs, IsName n)
    (hout : ¬ outs <+: rs) : d'.existing ⟨nameText rs⟩ = d.existing ⟨nameText rs⟩ := by
  unfold existing
  rw [resolve_nameText_agree h hrs hout]
  cases hr : d.resolve ⟨nameText rs⟩ with
  | error e => rfl
  | ok x =>
    obtain ⟨names, w⟩ := x
    obtain rfl := resolve_nameText hrs hr
    simp only [bind, Except.bind, h.node names hout]

theorem readDir_nameText_agree {rs : List String} (hrs : ∀ n ∈ rs, IsName n)
    (hout : ¬ outs <+: rs) : d'.readDir ⟨nameText rs⟩ = d.readDir ⟨nameText rs⟩ := by
  unfold readDir
  rw [existing_nameText_agree h hrs hout]
  cases he : d.existing ⟨nameText rs⟩ with
  | error e => rfl
  | ok x =>
    obtain ⟨names, nd⟩ := x
    obtain ⟨⟨w, hr⟩, -⟩ := existing_eq_ok he
    obtain rfl := resolve_nameText hrs hr
    cases nd <;> simp [bind, Except.bind, h.children names hout]

theorem metadata_nameText_agree {rs : List String} (hrs : ∀ n ∈ rs, IsName n)
    (hout : ¬ outs <+: rs) : d'.metadata ⟨nameText rs⟩ = d.metadata ⟨nameText rs⟩ := by
  unfold metadata
  rw [existing_nameText_agree h hrs hout]

end

/-! ### The headers found agree -/

section
variable (hout : ∀ n ∈ outs, IsName n)
include hout

/-- One entry of a directory outside `outs` contributes the same headers on both disks, provided
the visits of subdirectories outside `outs` do. -/
theorem entryHeaders_agree {rs : List String} (hrs : ∀ n ∈ rs, IsName n)
    {visit : Path → ExceptT IoError MemoryRun (List Path)}
    (hvisit : ∀ n found, IsName n → ¬ outs <+: rs ++ [n] →
      d.runOn (visit ⟨nameText (rs ++ [n])⟩) = (.ok found, d) →
        d'.runOn (visit ⟨nameText (rs ++ [n])⟩) = (.ok found, d'))
    {e : DirEntry} (hn : IsName e.name) {here : List Path}
    (h : d.runOn (entryHeaders ⟨nameText outs⟩ ⟨nameText rs⟩ visit e) = (.ok here, d)) :
    d'.runOn (entryHeaders ⟨nameText outs⟩ ⟨nameText rs⟩ visit e) = (.ok here, d') := by
  have hks : ∀ m ∈ rs ++ [e.name], IsName m := by simpa [or_imp, forall_and] using ⟨hrs, hn⟩
  simp only [entryHeaders, join_nameText hrs hn] at h ⊢
  split
  · next hskip =>
    simp only [hskip, if_true, runOn_pure, Prod.mk.injEq, Except.ok.injEq] at h
    rw [← h.1]
    rfl
  · next hskip =>
    simp only [hskip, Bool.false_eq_true, if_false] at h
    have hin : ¬ outs <+: rs ++ [e.name] := fun hpre => hskip ((startsWith_nameText hks hout).2 hpre)
    split at h
    · exact hvisit _ _ hn hin h
    all_goals
      simp only [runOn_pure, Prod.mk.injEq, Except.ok.injEq] at h
      rw [← h.1]
      rfl

theorem collectEntries_agree {rs : List String} (hrs : ∀ n ∈ rs, IsName n)
    {visit : Path → ExceptT IoError MemoryRun (List Path)}
    (hvisit : ∀ n found, IsName n → ¬ outs <+: rs ++ [n] →
      d.runOn (visit ⟨nameText (rs ++ [n])⟩) = (.ok found, d) →
        d'.runOn (visit ⟨nameText (rs ++ [n])⟩) = (.ok found, d'))
    (hscan : ∀ n found d₁, IsName n → d.runOn (visit ⟨nameText (rs ++ [n])⟩) = (.ok found, d₁) →
      d₁ = d ∧ ∀ p ∈ found, HeaderBelow outs rs p)
    {es : List DirEntry} (hes : ∀ e ∈ es, IsName e.name) {found : List Path}
    (h : d.runOn (collectEntries ⟨nameText outs⟩ ⟨nameText rs⟩ visit es) = (.ok found, d)) :
    d'.runOn (collectEntries ⟨nameText outs⟩ ⟨nameText rs⟩ visit es) = (.ok found, d') := by
  induction es generalizing found with
  | nil => simpa [collectEntries] using h
  | cons e es ih =>
    simp only [collectEntries, runOn_bind_eq_ok, runOn_pure, Prod.mk.injEq, Except.ok.injEq] at h ⊢
    obtain ⟨here, d₁, hhere, rest, d₂, hrest, rfl, rfl⟩ := h
    have hn : IsName e.name := hes e List.mem_cons_self
    -- the entry leaves the disk alone, so the rest is walked from the same disk
    obtain ⟨rfl, -⟩ := entryHeaders_eq_ok hout hrs hscan hn hhere
    exact ⟨here, d', entryHeaders_agree hout hrs hvisit hn hhere, rest, d',
      ih (fun e' he' => hes e' (List.mem_cons_of_mem _ he')) hrest, rfl, rfl⟩

/-- The headers found below a canonical directory outside `outs` are the same on both disks. -/
theorem collectIn_agree (hag : AgreeOutside outs d d') (hd : d.Named) (fuel : Nat) {rs : List String} (hrs : ∀ n ∈ rs, IsName n)
    (hrs' : ¬ outs <+: rs) {found : List Path}
    (h : d.runOn (collectIn ⟨nameText outs⟩ fuel ⟨nameText rs⟩) = (.ok found, d)) :
    d'.runOn (collectIn ⟨nameText outs⟩ fuel ⟨nameText rs⟩) = (.ok found, d') := by
  induction fuel generalizing rs found with
  | zero => simpa [collectIn] using h
  | succ fuel ih =>
    simp only [collectIn, runOn_bind_eq_ok] at h ⊢
    obtain ⟨es, d₁, hread, h⟩ := h
    rw [runOn_mk, run_readDir] at hread
    obtain ⟨hdir, rfl⟩ := Prod.mk.inj hread
    obtain ⟨names, w, hres, rfl⟩ := readDir_eq_ok hdir
    obtain rfl := resolve_nameText hrs hres
    have hes : ∀ e ∈ DirEntry.sortByName (d.children names), IsName e.name :=
      fun e he => hd.isName_of_mem_children (DirEntry.mem_sortByName.1 he)
    refine ⟨d.children names, d', ?_, ?_⟩
    · rw [runOn_mk, run_readDir, readDir_nameText_agree hag hrs hrs', hdir]
    · -- a subdirectory outside `outs` is walked alike, and walking it leaves the disk alone
      refine collectEntries_agree hout hrs (fun n found' hn hn' hv => ?_)
        (fun n found' d₁ hn hv => ?_) hes h
      · have hks : ∀ m ∈ names ++ [n], IsName m := by simpa [or_imp, forall_and] using ⟨hrs, hn⟩
        exact ih hks hn' hv
      · have hks : ∀ m ∈ names ++ [n], IsName m := by simpa [or_imp, forall_and] using ⟨hrs, hn⟩
        obtain ⟨rfl, hbelow⟩ := collectIn_eq_ok hd hout fuel hks hv
        exact ⟨rfl, fun p hp => (hbelow p hp).mono (List.prefix_append _ _)⟩

end

end MemoryDisk

end TypeReflection
