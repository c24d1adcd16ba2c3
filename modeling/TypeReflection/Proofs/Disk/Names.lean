import TypeReflection.Disk.Memory
import TypeReflection.HeaderFiles

/-!
# Canonical paths

A memory disk names every directory and file by a list of names from the root, and the canonical
path of such a list is its text `/a/b/c` (`MemoryDisk.nameText`). When every piece is a proper
name (`IsName`: not empty, no `/`, neither `.` nor `..`), the text is read back exactly: its
pieces are the names (`pieces_nameText`), its parts are the root and the names
(`parts_nameText`), joining a name appends it (`join_nameText`), one canonical path starts with
another exactly when its names do (`startsWith_nameText`), and the include path of a header below
a canonical root is the rest of its names (`includePath_nameText`).
-/

set_option autoImplicit false

namespace TypeReflection

/-- A piece that a path holds as one name: not empty, without a separator, and neither `.` nor
`..`. -/
structure IsName (n : String) : Prop where
  ne_empty : n ≠ ""
  no_separator : '/' ∉ n.toList
  ne_current : n ≠ "."
  ne_up : n ≠ ".."

instance (n : String) : Decidable (IsName n) :=
  decidable_of_iff (n ≠ "" ∧ '/' ∉ n.toList ∧ n ≠ "." ∧ n ≠ "..")
    ⟨fun ⟨h₁, h₂, h₃, h₄⟩ => ⟨h₁, h₂, h₃, h₄⟩, fun ⟨h₁, h₂, h₃, h₄⟩ => ⟨h₁, h₂, h₃, h₄⟩⟩

/-- A proper name is read as a name part. -/
theorem IsName.ofPiece {n : String} (h : IsName n) : PathPart.ofPiece n = some (.name n) := by
  have h1 : n.isEmpty = false := by simpa [String.isEmpty_iff] using h.ne_empty
  simp [PathPart.ofPiece, h1, h.ne_current, h.ne_up]

/-- A proper name is a relative path. -/
theorem IsName.isAbsolute {n : String} (h : IsName n) : (⟨n⟩ : Path).isAbsolute = false := by
  rw [Path.isAbsolute, Bool.eq_false_iff, ne_eq, String.startsWith_string_iff]
  intro hp
  exact h.no_separator (hp.subset (by simp))

/-- A text without separators followed by a suffix of at least three characters without
separators is a proper name. -/
theorem IsName.append {s t : String} (hs : '/' ∉ s.toList) (ht : '/' ∉ t.toList)
    (hlen : 3 ≤ t.length) : IsName (s ++ t) := by
  have hne : ∀ u : String, u.length < 3 → s ++ t ≠ u := fun u hu h => by
    have hl := congrArg String.length h
    rw [String.length_append] at hl
    omega
  refine ⟨hne "" (by decide), ?_, hne "." (by decide), hne ".." (by decide)⟩
  simp only [String.toList_append, List.mem_append, not_or]
  exact ⟨hs, ht⟩

/-- A text ends with another exactly when the other's characters are a suffix of its own. -/
theorem endsWith_eq_true_iff_suffix (s pat : String) :
    s.endsWith pat = true ↔ pat.toList <:+ s.toList := by
  show s.toSlice.endsWith pat = true ↔ _
  rw [String.Slice.endsWith_string_iff]
  simp

namespace MemoryDisk

/-- The canonical path is a `/` followed by the names joined by `/`. -/
theorem toList_nameText (ns : List String) :
    (nameText ns).toList = '/' :: ['/'].intercalate (ns.map String.toList) := by
  simp [nameText]

/-- Splitting a canonical path at `/` gives an empty piece and then the names. -/
theorem splitPieces_nameText {ns : List String} (h : ∀ n ∈ ns, '/' ∉ n.toList) :
    Path.splitPieces (nameText ns) = "" :: (if ns = [] then [""] else ns) := by
  rw [Path.splitPieces, toList_nameText, List.splitOn_cons_eq_if_modifyHead]
  simp only [beq_self_eq_true, if_true, List.map_cons]
  split
  · next hns => subst hns; simp
  · next hns =>
    rw [List.splitOn_intercalate]
    · simp
    · simpa using h
    · simpa using hns

variable {ns : List String}

/-- The pieces of a canonical path of proper names are the names. -/
theorem pieces_nameText (h : ∀ n ∈ ns, IsName n) : pieces ⟨nameText ns⟩ = ns := by
  rw [pieces, splitPieces_nameText fun n hn => (h n hn).no_separator]
  split
  · next hns => simp [hns]
  · simp only [List.filter_cons, bne_self_eq_false, Bool.false_eq_true, if_false]
    exact List.filter_eq_self.2 fun n hn => by simpa using (h n hn).ne_empty

/-- A canonical path starts with `/`. -/
theorem startsWith_slash_nameText (ns : List String) : (nameText ns).startsWith "/" = true := by
  rw [String.startsWith_string_iff, toList_nameText]
  simp

/-- Proper names are read as their name parts. -/
theorem filterMap_ofPiece (h : ∀ n ∈ ns, IsName n) : ns.filterMap PathPart.ofPiece = ns.map .name := by
  induction ns with
  | nil => rfl
  | cons n ns ih =>
    rw [List.filterMap_cons, (h n List.mem_cons_self).ofPiece, List.map_cons,
      ih fun m hm => h m (List.mem_cons_of_mem n hm)]

/-- The parts of a canonical path of proper names are the root and the names. -/
theorem parts_nameText (h : ∀ n ∈ ns, IsName n) :
    (⟨nameText ns⟩ : Path).parts = .root :: ns.map .name := by
  rw [Path.parts, splitPieces_nameText fun n hn => (h n hn).no_separator]
  simp only [Path.isAbsolute, startsWith_slash_nameText, if_true, List.singleton_append]
  split
  · next hns => simp [hns, PathPart.ofPiece]
  · have hempty : PathPart.ofPiece "" = none := rfl
    rw [List.filterMap_cons, hempty, filterMap_ofPiece h]

/-- The canonical path of the root is `/`. -/
theorem nameText_nil : nameText [] = "/" := rfl

/-- The canonical path of a name below a directory other than the root is the directory's, a `/` and
the name. -/
theorem nameText_concat {ns : List String} (hns : ns ≠ []) (m : String) :
    nameText (ns ++ [m]) = nameText ns ++ "/" ++ m := by
  simp only [nameText, String.intercalate_append_of_ne_nil hns (List.cons_ne_nil m []),
    String.intercalate_singleton, String.append_assoc]

/-- A canonical path that ends with a proper name does not end with `/`. -/
theorem endsWith_slash_nameText_concat (ns : List String) {m : String} (hm : IsName m) :
    (nameText (ns ++ [m])).endsWith "/" = false := by
  have hsplit : ∃ pre, nameText (ns ++ [m]) = pre ++ m := by
    rcases List.eq_nil_or_concat ns with rfl | ⟨ns', k, rfl⟩
    · exact ⟨"/", rfl⟩
    · exact ⟨_, nameText_concat (by simp) m⟩
  obtain ⟨pre, hpre⟩ := hsplit
  rw [Bool.eq_false_iff, ne_eq, endsWith_eq_true_iff_suffix, hpre, String.toList_append]
  rintro ⟨t, ht⟩
  have hm' : m.toList ≠ [] := by simpa using hm.ne_empty
  obtain ⟨c, hc⟩ : ∃ c, m.toList.getLast? = some c :=
    Option.ne_none_iff_exists'.1 (mt List.getLast?_eq_none_iff.1 hm')
  have hlast := congrArg List.getLast? ht
  rw [List.getLast?_append, List.getLast?_append, hc] at hlast
  have hslash : c = '/' := by simpa using hlast.symm
  exact hm.no_separator (hslash ▸ List.mem_of_getLast? hc)

/-- Joining a proper name to a canonical path appends the name. -/
theorem join_nameText (h : ∀ n ∈ ns, IsName n) {n : String} (hn : IsName n) :
    (⟨nameText ns⟩ : Path).join ⟨n⟩ = ⟨nameText (ns ++ [n])⟩ := by
  rw [Path.join, if_neg (by simp [hn.isAbsolute])]
  rcases List.eq_nil_or_concat ns with rfl | ⟨ns', k, rfl⟩
  · have hend : (nameText []).endsWith "/" = true := by
      simp only [endsWith_eq_true_iff_suffix, nameText_nil, List.suffix_refl]
    rw [if_pos (by simp [hend])]
    rfl
  · have hk : IsName k := h k (by simp)
    have hempty : (nameText (ns' ++ [k])).isEmpty = false := by
      simp [← String.toList_inj, toList_nameText]
    rw [if_neg (by simp [hempty, endsWith_slash_nameText_concat ns' hk]),
      nameText_concat (by simp) n]

/-- One canonical path starts with another exactly when its names start with the other's. -/
theorem startsWith_nameText {ks rs : List String} (hk : ∀ n ∈ ks, IsName n)
    (hr : ∀ n ∈ rs, IsName n) :
    (⟨nameText ks⟩ : Path).startsWith ⟨nameText rs⟩ = true ↔ rs <+: ks := by
  rw [Path.startsWith, parts_nameText hk, parts_nameText hr, List.isPrefixOf_iff_prefix,
    List.cons_prefix_cons]
  simp only [true_and, List.prefix_iff_eq_take, List.length_map, ← List.map_take]
  exact List.map_inj_right fun a b h => by cases h; rfl

/-- The include path of a header below a canonical root is its names past the root's, joined by `/`. -/
theorem includePath_nameText {ks rs : List String} (hk : ∀ n ∈ ks, IsName n)
    (hr : ∀ n ∈ rs, IsName n) (hpre : rs <+: ks) :
    includePath ⟨nameText ks⟩ ⟨nameText rs⟩ = "/".intercalate (ks.drop rs.length) := by
  rw [includePath, Path.stripPrefix?, if_pos ((startsWith_nameText hk hr).2 hpre),
    parts_nameText hk, parts_nameText hr]
  have htext : (PathPart.text ∘ PathPart.name) = id := rfl
  simp [Path.partsText, List.map_drop, htext]

end MemoryDisk

end TypeReflection
