import TypeReflection.Proofs.Disk.Names

/-!
# What the operations of a memory disk do

`put` replaces what a name holds and leaves every other name alone (`node?_put_of_ne`,
`node?_put_self`). A path is resolved by walking its pieces through directories only, so putting
a node where no directory stands changes no resolution (`walk_put`, `resolve_put`); a canonical
path resolves to its own names (`resolve_nameText`). On top of these, one inversion lemma per
operation says everything a successful call did: `createDir_eq_ok` put a directory where nothing
was, `writeText_eq_ok` put a file where no directory was, and the reading operations changed
nothing and answered from the node found.

A disk is `Named` when its working directory and all its keys are made of proper names. Every
operation keeps that, since every name it puts is the resolution of a path.
-/

set_option autoImplicit false

namespace TypeReflection.MemoryDisk

variable {d : MemoryDisk} {names names' : List String} {node : Node}

@[simp] theorem node?_nil (d : MemoryDisk) : d.node? [] = some .directory := rfl

/-- Replacing the entries at `names` by `(names, node)` keeps every entry's key. -/
theorem beq_key_comp_put (names : List String) (node : Node) (key : List String) :
    ((fun e : List String × Node => e.1 == key) ∘
        fun e => if (e.1 == names) = true then (names, node) else e) = fun e => e.1 == key := by
  funext e
  by_cases he : e.1 = names <;> simp [he]

theorem node?_put_of_ne (node : Node) (h : names' ≠ names) :
    (d.put names node).node? names' = d.node? names' := by
  unfold node?
  split
  · rfl
  · unfold put
    split
    · rw [List.find?_map, beq_key_comp_put]
      cases hfind : d.nodes.find? (·.1 == names') with
      | none => rfl
      | some e =>
        have he : e.1 = names' := by simpa using List.find?_some hfind
        simp [he, h]
    · simp [List.find?_append, Ne.symm h]

theorem node?_put_self (node : Node) (h : names ≠ []) :
    (d.put names node).node? names = some node := by
  unfold node?
  rw [if_neg (by simpa using h)]
  unfold put
  split
  · next hany =>
    rw [List.find?_map, beq_key_comp_put]
    obtain ⟨e, hfind⟩ : ∃ e, d.nodes.find? (·.1 == names) = some e :=
      Option.isSome_iff_exists.1 (List.find?_isSome.2 (List.any_eq_true.1 hany))
    have he : e.1 = names := by simpa using List.find?_some hfind
    simp [hfind, he]
  · next hany =>
    have hnone : d.nodes.find? (·.1 == names) = none := by
      rw [List.find?_eq_none]
      intro e he hek
      exact hany (List.any_eq_true.2 ⟨e, he, hek⟩)
    simp [List.find?_append, hnone]

@[simp] theorem workDir_put (names : List String) (node : Node) :
    (d.put names node).workDir = d.workDir := by
  unfold put; split <;> rfl

@[simp] theorem clock_put (names : List String) (node : Node) :
    (d.put names node).clock = d.clock := by
  unfold put; split <;> rfl

@[simp] theorem issued_put (names : List String) (node : Node) :
    (d.put names node).issued = d.issued := by
  unfold put; split <;> rfl

theorem mem_keys_put {key : List String} (h : key ∈ (d.put names node).nodes.map (·.1)) :
    key ∈ d.nodes.map (·.1) ∨ key = names := by
  unfold put at h
  split at h
  · simp only [List.map_map, List.mem_map] at h
    obtain ⟨e, he, rfl⟩ := h
    by_cases hk : e.1 = names
    · simp [hk]
    · exact .inl (List.mem_map.2 ⟨e, he, by simp [hk]⟩)
  · simpa using h

/-- Every name a memory disk holds, in its working directory and in the keys of its entries, is
a proper name. -/
structure Named (d : MemoryDisk) : Prop where
  workDir : ∀ n ∈ d.workDir, IsName n
  keys : ∀ key ∈ d.nodes.map (·.1), ∀ n ∈ key, IsName n

instance (d : MemoryDisk) : Decidable d.Named :=
  decidable_of_iff ((∀ n ∈ d.workDir, IsName n) ∧ ∀ key ∈ d.nodes.map (·.1), ∀ n ∈ key, IsName n)
    ⟨fun ⟨h₁, h₂⟩ => ⟨h₁, h₂⟩, fun ⟨h₁, h₂⟩ => ⟨h₁, h₂⟩⟩

theorem Named.put (h : d.Named) (hn : ∀ n ∈ names, IsName n) (node : Node) :
    (d.put names node).Named := by
  refine ⟨by simpa using h.workDir, fun key hkey => ?_⟩
  rcases mem_keys_put hkey with hkey | rfl
  · exact h.keys key hkey
  · exact hn

theorem Named.withIssued (h : d.Named) (n : Nat) : ({ d with issued := n } : MemoryDisk).Named :=
  ⟨h.workDir, h.keys⟩

/-! ## Resolving paths -/

theorem not_mem_of_mem_splitOn {c : Char} {xs l : List Char} (h : l ∈ xs.splitOn c) : c ∉ l := by
  induction xs generalizing l with
  | nil => simp_all
  | cons x xs ih =>
    rw [List.splitOn_cons_eq_if_modifyHead] at h
    split at h
    · rcases List.mem_cons.1 h with rfl | h
      · simp
      · exact ih h
    · next hx =>
      obtain ⟨l₀, ls, hls⟩ := List.exists_cons_of_ne_nil (List.splitOn_ne_nil c xs)
      rw [hls, List.modifyHead_cons] at h
      rcases List.mem_cons.1 h with rfl | h
      · have hx' : x ≠ c := by simpa using hx
        simpa [Ne.symm hx'] using ih (hls ▸ List.mem_cons_self)
      · exact ih (hls ▸ List.mem_cons_of_mem l₀ h)

/-- A piece of a path is not empty and holds no separator. -/
theorem mem_pieces {p : Path} {n : String} (h : n ∈ pieces p) : n ≠ "" ∧ '/' ∉ n.toList := by
  simp only [pieces, Path.splitPieces, List.mem_filter, List.mem_map, bne_iff_ne, ne_eq] at h
  obtain ⟨⟨l, hl, rfl⟩, hne⟩ := h
  exact ⟨hne, by simpa using not_mem_of_mem_splitOn hl⟩

theorem step_of_isName (cur : List String) {n : String} (h : IsName n) : step cur n = cur ++ [n] := by
  unfold step
  split
  · exact absurd rfl h.ne_current
  · exact absurd rfl h.ne_up
  · rfl

/-- A step along a piece keeps a list of proper names one. -/
theorem isName_step {cur : List String} {n : String} (hc : ∀ m ∈ cur, IsName m)
    (hn : n ≠ "" ∧ '/' ∉ n.toList) : ∀ m ∈ step cur n, IsName m := by
  unfold step
  split
  · exact hc
  · exact fun m hm => hc m (List.dropLast_subset cur hm)
  · next h1 h2 =>
    intro m hm
    rcases List.mem_append.1 hm with hm | hm
    · exact hc m hm
    · have hm' : m = n := by simpa using hm
      subst hm'
      exact ⟨hn.1, hn.2, fun h => h1 h, fun h => h2 h⟩

variable {cur ps r : List String}

/-- Walking pieces from a list of proper names ends at a list of proper names. -/
theorem walk_isName (hc : ∀ m ∈ cur, IsName m) (hp : ∀ n ∈ ps, n ≠ "" ∧ '/' ∉ n.toList)
    (h : d.walk cur ps = .ok r) : ∀ m ∈ r, IsName m := by
  induction ps generalizing cur with
  | nil =>
    simp only [walk, Except.ok.injEq] at h
    exact h ▸ hc
  | cons p rest ih =>
    have hstep := isName_step hc (hp p List.mem_cons_self)
    cases rest with
    | nil =>
      simp only [walk, Except.ok.injEq] at h
      exact h ▸ hstep
    | cons q rest =>
      simp only [walk] at h
      split at h
      · exact ih hstep (fun n hn => hp n (List.mem_cons_of_mem p hn)) h
      · cases h
      · cases h

/-- Walking proper names appends them. -/
theorem walk_eq_ok_of_isName (hp : ∀ n ∈ ps, IsName n) (h : d.walk cur ps = .ok r) :
    r = cur ++ ps := by
  induction ps generalizing cur with
  | nil =>
    simp only [walk, Except.ok.injEq] at h
    simp [h]
  | cons p rest ih =>
    have hstep := step_of_isName cur (hp p List.mem_cons_self)
    cases rest with
    | nil =>
      simp only [walk, Except.ok.injEq] at h
      rw [← h, hstep]
    | cons q rest =>
      simp only [walk] at h
      split at h
      · rw [ih (fun n hn => hp n (List.mem_cons_of_mem p hn)) h, hstep, List.append_assoc]
        rfl
      · cases h
      · cases h

/-- A walk passes only through directories, so putting a node where no directory stands leaves
it as it was. -/
theorem walk_put (hdir : d.node? names ≠ some .directory) (node : Node)
    (h : d.walk cur ps = .ok r) : (d.put names node).walk cur ps = .ok r := by
  induction ps generalizing cur with
  | nil => simpa [walk] using h
  | cons p rest ih =>
    cases rest with
    | nil => simpa [walk] using h
    | cons q rest =>
      simp only [walk] at h ⊢
      split at h
      · next hnext =>
        have hne : step cur p ≠ names := fun he => hdir (he ▸ hnext)
        rw [node?_put_of_ne node hne, hnext]
        exact ih h
      · cases h
      · cases h

variable {p : Path} {w : Bool}

theorem resolve_eq_ok (h : d.resolve p = .ok (names, w)) :
    d.walk (d.start p) (pieces p) = .ok names ∧ w = p.text.endsWith "/" := by
  unfold resolve at h
  split at h
  · cases h
  · cases hw : d.walk (d.start p) (pieces p) with
    | error e => simp [hw] at h; cases h
    | ok r =>
      simp only [hw, Except.map, Except.ok.injEq, Prod.mk.injEq] at h
      exact ⟨h.1 ▸ rfl, h.2.symm⟩

/-- On a disk of proper names every path resolves to proper names. -/
theorem Named.resolve (hd : d.Named) (h : d.resolve p = .ok (names, w)) : ∀ n ∈ names, IsName n := by
  have hstart : ∀ m ∈ d.start p, IsName m := by
    unfold start
    split
    · simp
    · exact hd.workDir
  exact walk_isName hstart (fun n hn => mem_pieces hn) (resolve_eq_ok h).1

/-- A canonical path resolves to its names. -/
theorem resolve_nameText {ns : List String} (hn : ∀ n ∈ ns, IsName n)
    (h : d.resolve ⟨nameText ns⟩ = .ok (names, w)) : names = ns := by
  have hwalk := (resolve_eq_ok h).1
  rw [start, if_pos (startsWith_slash_nameText ns), pieces_nameText hn] at hwalk
  simpa using walk_eq_ok_of_isName hn hwalk

theorem resolve_put (hdir : d.node? names ≠ some .directory) (node : Node)
    {x : List String × Bool} (h : d.resolve p = .ok x) : (d.put names node).resolve p = .ok x := by
  unfold resolve at h ⊢
  split at h
  · cases h
  · rw [if_neg (by assumption)]
    have hstart : (d.put names node).start p = d.start p := by simp [start]
    rw [hstart]
    cases hw : d.walk (d.start p) (pieces p) with
    | error e => simp [hw] at h; cases h
    | ok r => rw [walk_put hdir node hw]; simpa [hw] using h

/-- A walk that ends in a directory goes on into it by one more name. -/
theorem walk_concat {cur ps r : List String} (h : d.walk cur ps = .ok r)
    (hdir : d.node? r = some .directory) {g : String} (hg : IsName g) :
    d.walk cur (ps ++ [g]) = .ok (r ++ [g]) := by
  induction ps generalizing cur with
  | nil =>
    simp only [walk, Except.ok.injEq] at h
    subst h
    simp [walk, step_of_isName _ hg]
  | cons p rest ih =>
    cases rest with
    | nil =>
      simp only [walk, Except.ok.injEq] at h
      subst h
      simp [walk, hdir, step_of_isName _ hg]
    | cons q rest =>
      simp only [walk] at h
      simp only [List.cons_append, walk]
      split at h
      · exact ih h
      · cases h
      · cases h

/-- A name inside a directory given by its canonical path resolves to its names, and its path
does not ask for a directory. -/
theorem resolve_nameText_concat {ns : List String} (hns : ∀ n ∈ ns, IsName n) {w : Bool}
    (h : d.resolve ⟨nameText ns⟩ = .ok (ns, w)) (hdir : d.node? ns = some .directory)
    {g : String} (hg : IsName g) :
    d.resolve ⟨nameText (ns ++ [g])⟩ = .ok (ns ++ [g], false) := by
  have hwalk := (resolve_eq_ok h).1
  rw [start, if_pos (startsWith_slash_nameText ns), pieces_nameText hns] at hwalk
  have hgs : ∀ n ∈ ns ++ [g], IsName n := by simpa [or_imp, forall_and] using ⟨hns, hg⟩
  have hne : (⟨nameText (ns ++ [g])⟩ : Path).isEmpty = false := by
    simp [Path.isEmpty, parts_nameText hgs]
  unfold resolve
  rw [if_neg (by simp [hne]), start, if_pos (startsWith_slash_nameText _), pieces_nameText hgs,
    walk_concat hwalk hdir hg]
  simp [Except.map, endsWith_slash_nameText_concat ns hg]

/-! ## What the file operations do -/

theorem existing_eq_ok {nd : Node} (h : d.existing p = .ok (names, nd)) :
    (∃ w, d.resolve p = .ok (names, w)) ∧ d.node? names = some nd := by
  unfold existing at h
  cases hr : d.resolve p with
  | error e => simp [hr] at h; cases h
  | ok v =>
    obtain ⟨r, w'⟩ := v
    simp only [hr, bind, Except.bind] at h
    split at h
    · next hn =>
      simp only [pure, Except.pure, Except.ok.injEq, Prod.mk.injEq] at h
      obtain ⟨rfl, rfl⟩ := h
      exact ⟨⟨w', rfl⟩, hn⟩
    · next c t hn =>
      split at h
      · cases h
      · simp only [pure, Except.pure, Except.ok.injEq, Prod.mk.injEq] at h
        obtain ⟨rfl, rfl⟩ := h
        exact ⟨⟨w', rfl⟩, hn⟩
    · cases h

/-- What a path that does not ask for a directory names is the node at its resolution. -/
theorem existing_of_resolve {p : Path} (h : d.resolve p = .ok (names, false)) :
    d.existing p = match d.node? names with
      | some nd => .ok (names, nd)
      | none => .error .notFound := by
  unfold existing
  rw [h]
  simp only [bind, Except.bind]
  rcases d.node? names with _ | _ | ⟨c, t⟩ <;> rfl

/-- A path whose metadata is that of a directory names a directory. -/
theorem existing_of_metadata_directory (h : d.metadata p = .ok ⟨.directory, 0⟩) :
    ∃ names, d.existing p = .ok (names, .directory) := by
  unfold metadata at h
  cases he : d.existing p with
  | error e => simp [he, bind, Except.bind] at h
  | ok v =>
    obtain ⟨names, nd⟩ := v
    simp only [he, bind, Except.bind] at h
    cases nd with
    | directory => exact ⟨names, rfl⟩
    | file c t => cases h

theorem metadata_of_existing_directory (h : d.existing p = .ok (names, .directory)) :
    d.metadata p = .ok ⟨.directory, 0⟩ := by
  simp [metadata, h, bind, Except.bind, pure, Except.pure]

theorem existing_of_readText {c : String} (h : d.readText p = .ok c) :
    ∃ names t, d.existing p = .ok (names, .file c t) := by
  unfold readText at h
  cases he : d.existing p with
  | error e => simp [he, bind, Except.bind] at h
  | ok v =>
    obtain ⟨names, nd⟩ := v
    simp only [he, bind, Except.bind] at h
    cases nd with
    | directory => cases h
    | file c' t =>
      simp only [pure, Except.pure, Except.ok.injEq] at h
      exact ⟨names, t, by rw [h]⟩

theorem readDir_eq_ok {es : List DirEntry} (h : d.readDir p = .ok es) :
    ∃ names w, d.resolve p = .ok (names, w) ∧ es = d.children names := by
  unfold readDir at h
  cases he : d.existing p with
  | error e => simp [he, bind, Except.bind] at h
  | ok v =>
    obtain ⟨names, nd⟩ := v
    obtain ⟨⟨w, hres⟩, -⟩ := existing_eq_ok he
    simp only [he, bind, Except.bind] at h
    split at h
    · next hv =>
      simp only [pure, Except.pure, Except.ok.injEq] at h
      simp only [Prod.mk.injEq] at hv
      exact ⟨names, w, hres, by rw [← h, hv.1]⟩
    · cases h

theorem createDir_eq_ok {d' : MemoryDisk} (h : d.createDir p = .ok d') :
    ∃ names w, d.resolve p = .ok (names, w) ∧ d.node? names = none ∧
      d' = d.put names .directory := by
  unfold createDir at h
  cases hr : d.resolve p with
  | error e => simp [hr, bind, Except.bind] at h
  | ok v =>
    obtain ⟨names, w⟩ := v
    simp only [hr, bind, Except.bind] at h
    split at h
    · cases h
    · next hnone =>
      simp only [pure, Except.pure, Except.ok.injEq] at h
      exact ⟨names, w, rfl, by simpa using hnone, h.symm⟩

theorem writeText_eq_ok {c : String} {d' : MemoryDisk} (h : d.writeText p c = .ok d') :
    ∃ names, d.resolve p = .ok (names, false) ∧ d.node? names ≠ some .directory ∧
      d' = d.put names (.file c d.clock) := by
  unfold writeText at h
  cases hr : d.resolve p with
  | error e => simp [hr, bind, Except.bind] at h
  | ok v =>
    obtain ⟨names, w⟩ := v
    simp only [hr, bind, Except.bind] at h
    split at h
    · cases h
    · next hw =>
      split at h
      · cases h
      · next hnd =>
        simp only [pure, Except.pure, Except.ok.injEq] at h
        refine ⟨names, by simpa using hw, fun hdir => hnd hdir, h.symm⟩

/-- Writing succeeds where the path resolves, without asking for a directory, to a name where
no directory stands. -/
theorem writeText_of_resolve (h : d.resolve p = .ok (names, false))
    (hnd : d.node? names ≠ some .directory) (c : String) :
    d.writeText p c = .ok (d.put names (.file c d.clock)) := by
  cases hn : d.node? names with
  | none => simp [writeText, h, hn, bind, Except.bind, pure, Except.pure]
  | some nd =>
    cases nd with
    | directory => exact absurd hn hnd
    | file c' t => simp [writeText, h, hn, bind, Except.bind, pure, Except.pure]

theorem canonicalize_eq_ok {q : Path} (h : d.canonicalize p = .ok q) :
    ∃ names w, d.resolve p = .ok (names, w) ∧ d.node? names ≠ none ∧ q = ⟨nameText names⟩ := by
  unfold canonicalize at h
  cases he : d.existing p with
  | error e => simp [he, bind, Except.bind] at h
  | ok v =>
    obtain ⟨names, nd⟩ := v
    obtain ⟨⟨w, hres⟩, hnode⟩ := existing_eq_ok he
    simp only [he, bind, Except.bind, pure, Except.pure, Except.ok.injEq] at h
    exact ⟨names, w, hres, by simp [hnode], h.symm⟩

/-- The entries of a directory on a disk of proper names are named properly. -/
theorem Named.isName_of_mem_children (hd : d.Named) {e : DirEntry} (he : e ∈ d.children names) : IsName e.name := by
  simp only [children, List.mem_filterMap] at he
  obtain ⟨⟨key, nd⟩, hmem, hsome⟩ := he
  split at hsome
  · next hcond =>
    simp only [Option.some.injEq] at hsome
    subst hsome
    have hlen : key ≠ [] := by
      intro hk
      simp [hk] at hcond
    obtain ⟨k, hk⟩ := Option.ne_none_iff_exists'.1 (mt List.getLast?_eq_none_iff.1 hlen)
    simp only [hk, Option.getD_some]
    exact hd.keys key (List.mem_map.2 ⟨_, hmem, rfl⟩) k (List.mem_of_getLast? hk)
  · cases hsome

/-- Whatever a name directly inside `ns` holds is an entry of `ns`. -/
theorem mem_children_of_node? {ns : List String} {g : String} {nd : Node}
    (h : d.node? (ns ++ [g]) = some nd) : ∃ e ∈ d.children ns, e.name = g := by
  unfold node? at h
  rw [if_neg (by simp)] at h
  obtain ⟨e, hfind, -⟩ := Option.map_eq_some_iff.1 h
  have hkey : e.1 = ns ++ [g] := by simpa using List.find?_some hfind
  have hmem := List.mem_of_find?_eq_some hfind
  obtain ⟨key, nd'⟩ := e
  simp only at hkey
  subst hkey
  -- the entry's kind follows the node found, so it is named per case
  cases nd' with
  | directory => exact ⟨⟨g, .directory⟩, List.mem_filterMap.2 ⟨_, hmem, by simp⟩, rfl⟩
  | file c m => exact ⟨⟨g, .file⟩, List.mem_filterMap.2 ⟨_, hmem, by simp⟩, rfl⟩

/-! ## What a change leaves alone -/

theorem Named.createDir (hd : d.Named) {d' : MemoryDisk} (h : d.createDir p = .ok d') : d'.Named := by
  obtain ⟨names, w, hres, -, rfl⟩ := createDir_eq_ok h
  exact hd.put (hd.resolve hres) _

theorem issued_createDir {d' : MemoryDisk} (h : d.createDir p = .ok d') : d'.issued = d.issued := by
  obtain ⟨names, w, -, -, rfl⟩ := createDir_eq_ok h
  simp

theorem issued_writeText {c : String} {d' : MemoryDisk} (h : d.writeText p c = .ok d') :
    d'.issued = d.issued := by
  obtain ⟨names, -, -, rfl⟩ := writeText_eq_ok h
  simp

/-- A file written can be read back at once. -/
theorem readText_writeText {c : String} {d' : MemoryDisk} (h : d.writeText p c = .ok d') :
    d'.readText p = .ok c := by
  obtain ⟨names, hres, hdir, rfl⟩ := writeText_eq_ok h
  have hne : names ≠ [] := fun hn => hdir (hn ▸ node?_nil d)
  have hres' := resolve_put hdir (.file c d.clock) hres
  simp [readText, existing, hres', node?_put_self _ hne, bind, Except.bind, pure, Except.pure]

end TypeReflection.MemoryDisk
