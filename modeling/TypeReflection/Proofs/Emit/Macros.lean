import TypeReflection.Emit.Header
import TypeReflection.Proofs.Parse.Names

/-!
# The macros of a generated header

A C preprocessor reads a text as physical lines, the runs of characters between line feeds, and
joins a physical line that ends with a backslash to the next into one logical line. A logical
line that starts with `#define ` defines the macro named by the word after it. `Macro.defined`
reads a text so: it gives each macro the text defines, in order, with the physical lines of its
definition.

A text is *laid out* as a list of logical lines when it is their physical lines, each ended by a
line feed, where no line holds a line feed and a logical line's lines end with a backslash
exactly up to its last one (`Layout`). A laid-out text reads back as its logical lines
(`logicalLines_of_layout`), laid-out texts put one after another are laid out as the logical
lines of both, and a macro written by `Macro.define` is one logical line whenever its lines hold
no line feed and its last line does not end with a backslash.
-/

set_option autoImplicit false

namespace TypeReflection.Macro

/-- The logical lines of a text, given its physical lines: a line that ends with a backslash
goes on in the next one. Each logical line is kept as the physical lines it joins. -/
def logicalLines : List (List Char) → List (List (List Char))
  | [] => []
  | l :: ls =>
    if l.getLast? = some '\\' then
      match logicalLines ls with
      | [] => [[l]]
      | g :: gs => (l :: g) :: gs
    else [l] :: logicalLines ls

/-- The macro a logical line defines: the word after `#define ` on its first physical line, up
to the first blank. -/
def definedName? : List (List Char) → Option String
  | l :: _ =>
    if "#define ".toList.isPrefixOf l then some (String.ofList ((l.drop 8).takeWhile (· != ' ')))
    else none
  | [] => none

/-- An empty line defines nothing. -/
@[simp] theorem definedName?_empty : definedName? [[]] = none := rfl

/-- The macros a text defines, in order, each with the physical lines of its definition. -/
def defined (text : String) : List (String × List (List Char)) :=
  (logicalLines (text.toList.splitOn '\n')).filterMap fun g => (definedName? g).map (·, g)

/-! ## Laid-out texts -/

/-- The text made of the given lines, each ended by a line feed. -/
def lineText (ls : List (List Char)) : List Char := (ls.map (· ++ ['\n'])).flatten

@[simp] theorem lineText_nil : lineText [] = [] := rfl

@[simp] theorem lineText_cons (l : List Char) (ls : List (List Char)) :
    lineText (l :: ls) = l ++ '\n' :: lineText ls := by
  simp [lineText]

@[simp] theorem lineText_append (ls ms : List (List Char)) :
    lineText (ls ++ ms) = lineText ls ++ lineText ms := by
  simp [lineText]

/-- The physical lines of a text made of lines are those lines, and the empty line after the
last line feed. -/
theorem splitOn_lineText {ls : List (List Char)} (h : ∀ l ∈ ls, '\n' ∉ l) :
    (lineText ls).splitOn '\n' = ls ++ [[]] := by
  induction ls with
  | nil => rfl
  | cons l ls ih =>
    rw [lineText_cons, List.splitOn_append_cons_self_of_not_mem (h l (List.mem_cons_self ..)),
      ih fun m hm => h m (List.mem_cons_of_mem _ hm)]
    rfl

/-- Physical lines that a preprocessor joins into one logical line: none holds a line feed, and
every one but the last ends with a backslash, the last one not. -/
structure Joined (g : List (List Char)) : Prop where
  ne_nil : g ≠ []
  no_newline : ∀ l ∈ g, '\n' ∉ l
  continues : ∀ l ∈ g.dropLast, l.getLast? = some '\\'
  ends : ∀ l, g.getLast? = some l → l.getLast? ≠ some '\\'

/-- A logical line and what follows it are read as that logical line and the rest. -/
theorem logicalLines_append_of_joined {g : List (List Char)} (hg : Joined g)
    (rest : List (List Char)) : logicalLines (g ++ rest) = g :: logicalLines rest := by
  obtain ⟨init, last, rfl⟩ := List.eq_nil_or_concat g |>.resolve_left hg.ne_nil
  rw [List.concat_eq_append] at hg ⊢
  have hlast : last.getLast? ≠ some '\\' := hg.ends last (by simp)
  have hinit : ∀ l ∈ init, l.getLast? = some '\\' := fun l hl => hg.continues l (by simpa using hl)
  clear hg
  induction init with
  | nil => simp [logicalLines, hlast]
  | cons l init ih =>
    have hl := hinit l (List.mem_cons_self ..)
    rw [List.cons_append, List.cons_append, logicalLines, if_pos hl,
      ih fun m hm => hinit m (List.mem_cons_of_mem _ hm)]

/-- `text` is laid out as the logical lines `G`: it is their physical lines, each ended by a
line feed. -/
structure Layout (text : List Char) (G : List (List (List Char))) : Prop where
  text_eq : text = lineText G.flatten
  joined : ∀ g ∈ G, Joined g

namespace Layout

theorem nil : Layout [] [] := ⟨by simp, by simp⟩

theorem append {a b : List Char} {G H : List (List (List Char))} (ha : Layout a G)
    (hb : Layout b H) : Layout (a ++ b) (G ++ H) := by
  refine ⟨by rw [ha.text_eq, hb.text_eq, List.flatten_append, lineText_append], ?_⟩
  intro g hg
  rcases List.mem_append.1 hg with hg | hg
  · exact ha.joined g hg
  · exact hb.joined g hg

theorem flatten {β : Type} {xs : List β} {f : β → List Char} {F : β → List (List (List Char))}
    (h : ∀ x ∈ xs, Layout (f x) (F x)) : Layout (xs.map f).flatten (xs.flatMap F) := by
  induction xs with
  | nil => exact nil
  | cons x xs ih =>
    simpa using (h x (List.mem_cons_self ..)).append (ih fun y hy => h y (List.mem_cons_of_mem _ hy))

/-- A line with no line feed that does not end with a backslash is a logical line of its own. -/
theorem line {l : List Char} (hn : '\n' ∉ l) (hb : l.getLast? ≠ some '\\') :
    Layout (l ++ ['\n']) [[l]] := by
  refine ⟨by simp, ?_⟩
  intro g hg
  rw [List.mem_singleton.1 hg]
  exact ⟨by simp, by simpa using hn, by simp, by simpa using hb⟩

/-- Logical lines one after another, and the empty line after the last line feed, are read
back as themselves. -/
theorem logicalLines_flatten {G : List (List (List Char))} (h : ∀ g ∈ G, Joined g) :
    logicalLines (G.flatten ++ [[]]) = G ++ [[[]]] := by
  induction G with
  | nil => simp [logicalLines]
  | cons g G ih =>
    rw [List.flatten_cons, List.append_assoc,
      logicalLines_append_of_joined (h g (List.mem_cons_self ..)),
      ih fun g' hg' => h g' (List.mem_cons_of_mem _ hg')]
    rfl

/-- The physical lines of a laid-out text are read back as its logical lines, and the empty
line after the last line feed. -/
theorem logicalLines_eq {text : List Char} {G : List (List (List Char))} (h : Layout text G) :
    logicalLines (text.splitOn '\n') = G ++ [[[]]] := by
  have hlines : ∀ l ∈ G.flatten, '\n' ∉ l := by
    intro l hl
    obtain ⟨g, hg, hl⟩ := List.mem_flatten.1 hl
    exact (h.joined g hg).no_newline l hl
  rw [h.text_eq, splitOn_lineText hlines, logicalLines_flatten h.joined]

end Layout

/-! ## Macros written over several lines -/

/-- Lines continued one into the next: every line but the last is followed by a space and a
backslash. -/
def continued : List (List Char) → List (List Char)
  | l :: m :: ls => (l ++ [' ', '\\']) :: continued (m :: ls)
  | ls => ls

/-- The text of a macro is its first line and its lines, continued one into the next. -/
theorem toList_continue (head : String) (lines : List String) :
    (head ++ String.join (lines.map fun l => " \\\n" ++ l) ++ "\n").toList =
      lineText (continued (head.toList :: lines.map String.toList)) := by
  induction lines generalizing head with
  | nil => simp [continued]
  | cons l ls ih =>
    rw [List.map_cons, List.map_cons, continued, lineText_cons, ← ih l]
    simp

theorem toList_define (name : String) (lines : List String) :
    (define name lines).toList = lineText (continued (("#define " ++ name).toList :: lines.map String.toList)) :=
  toList_continue _ _

theorem Joined.cons {l : List Char} {g : List (List Char)} (hl : '\n' ∉ l)
    (hb : l.getLast? = some '\\') (hg : Joined g) : Joined (l :: g) := by
  obtain ⟨m, g', rfl⟩ := List.exists_cons_of_ne_nil hg.ne_nil
  refine ⟨by simp, ?_, ?_, ?_⟩
  · intro x hx
    rcases List.mem_cons.1 hx with rfl | hx
    · exact hl
    · exact hg.no_newline x hx
  · intro x hx
    rw [List.dropLast_cons_cons] at hx
    rcases List.mem_cons.1 hx with rfl | hx
    · exact hb
    · exact hg.continues x hx
  · intro x hx
    exact hg.ends x (by simpa [List.getLast?_cons_cons] using hx)

/-- Lines with no line feed, the last not ending with a backslash, continued one into the next
make one logical line, every line of it but the last ending with a space and a backslash. -/
theorem joined_continued {ls : List (List Char)} (hne : ls ≠ []) (hn : ∀ l ∈ ls, '\n' ∉ l)
    (hlast : ∀ l, ls.getLast? = some l → l.getLast? ≠ some '\\') :
    Joined (continued ls) ∧ ∀ l ∈ (continued ls).dropLast, [' ', '\\'] <:+ l := by
  fun_induction continued ls with
  | case1 l m ls ih =>
    obtain ⟨hj, hs⟩ := ih (by simp) (fun x hx => hn x (List.mem_cons_of_mem _ hx))
      (fun x hx => hlast x (by simpa [List.getLast?_cons_cons] using hx))
    refine ⟨hj.cons (by simpa using hn l (List.mem_cons_self ..)) (by simp), ?_⟩
    intro x hx
    rw [List.dropLast_cons_of_ne_nil hj.ne_nil] at hx
    rcases List.mem_cons.1 hx with rfl | hx
    · exact List.suffix_append _ _
    · exact hs x hx
  | case2 ls hls =>
    -- a single line is continued by nothing
    match ls, hls with
    | [l], _ => exact ⟨⟨by simp, hn, by simp, hlast⟩, by simp⟩
    | [], _ => exact absurd rfl hne
    | l :: m :: ls, h => exact absurd rfl (h l m ls)

/-! ## The macros a laid-out text defines -/

/-- A line `#define NAME`, ended there or by a blank, defines `NAME`. -/
theorem definedName?_define {name : String} (hname : ' ' ∉ name.toList) {rest : List Char}
    (hrest : rest.head? ≠ none → rest.head? = some ' ') (g : List (List Char)) :
    definedName? ((("#define " ++ name).toList ++ rest) :: g) = some name := by
  have hprefix : "#define ".toList.isPrefixOf (("#define " ++ name).toList ++ rest) = true := by
    simp
  have hdrop : (("#define " ++ name).toList ++ rest).drop 8 = name.toList ++ rest := by
    simp
  have hword : (name.toList ++ rest).takeWhile (· != ' ') = name.toList := by
    rw [List.takeWhile_append_of_pos fun c hc => by
      simp only [bne_iff_ne, ne_eq]
      rintro rfl
      exact hname hc]
    cases rest with
    | nil => simp
    | cons c rest =>
      have hc : c = ' ' := by simpa using hrest
      simp [hc]
  simp only [definedName?, hprefix, if_true, hdrop, hword, String.ofList_toList]

/-- A logical line *reads as written* when a line of it continues into the next only in a macro
definition, and every line of it but the last ends with a space and a backslash. -/
structure ReadsAsWritten (g : List (List Char)) : Prop where
  defines : 2 ≤ g.length → (definedName? g).isSome
  continues : ∀ l ∈ g.dropLast, [' ', '\\'] <:+ l

/-- `text` is laid out in logical lines that read as written and define the macros `names`, in
order. -/
def Defines (text : List Char) (names : List String) : Prop :=
  ∃ G, Layout text G ∧ G.filterMap definedName? = names ∧ ∀ g ∈ G, ReadsAsWritten g

namespace Defines

theorem nil : Defines [] [] := ⟨[], Layout.nil, rfl, by simp⟩

theorem append {a b : List Char} {m n : List String} (ha : Defines a m) (hb : Defines b n) :
    Defines (a ++ b) (m ++ n) := by
  obtain ⟨G, hG, rfl, hGr⟩ := ha
  obtain ⟨H, hH, rfl, hHr⟩ := hb
  refine ⟨G ++ H, hG.append hH, List.filterMap_append, fun g hg => ?_⟩
  rcases List.mem_append.1 hg with hg | hg
  · exact hGr g hg
  · exact hHr g hg

theorem flatten {β : Type} {xs : List β} {f : β → List Char} {F : β → List String}
    (h : ∀ x ∈ xs, Defines (f x) (F x)) : Defines (xs.map f).flatten (xs.flatMap F) := by
  induction xs with
  | nil => exact nil
  | cons x xs ih =>
    simpa using (h x (List.mem_cons_self ..)).append (ih fun y hy => h y (List.mem_cons_of_mem _ hy))

/-- A line with no line feed that does not end with a backslash is a logical line of its own. -/
theorem line {l : List Char} (hn : '\n' ∉ l) (hb : l.getLast? ≠ some '\\') :
    Defines (l ++ ['\n']) (definedName? [l]).toList :=
  ⟨[[l]], Layout.line hn hb, by cases h : definedName? [l] <;> simp [h],
    fun g hg => by rw [List.mem_singleton.1 hg]; exact ⟨by simp, by simp⟩⟩

/-- Lines of their own, each with no line feed and not ending with a backslash. -/
theorem lines {ls : List (List Char)} (h : ∀ l ∈ ls, '\n' ∉ l ∧ l.getLast? ≠ some '\\') :
    Defines (lineText ls) (ls.flatMap fun l => (definedName? [l]).toList) :=
  flatten fun l hl => line (h l hl).1 (h l hl).2

/-- A line of its own that is no `#define` defines nothing. -/
theorem plainLine {l : String} (hd : "#define ".toList.isPrefixOf l.toList = false)
    (hn : '\n' ∉ l.toList) (hb : l.toList.getLast? ≠ some '\\') : Defines (l ++ "\n").toList [] := by
  have hnone : definedName? [l.toList] = none := by
    simp only [definedName?, hd, Bool.false_eq_true, if_false]
  have h := line hn hb
  rwa [hnone, ← String.toList_singleton, ← String.toList_append] at h

/-- A line `#define NAME`, or `#define NAME VALUE`, of its own defines `NAME`. -/
theorem defineLine {name rest : String} (hname : ' ' ∉ name.toList)
    (hrest : rest.toList.head? ≠ none → rest.toList.head? = some ' ')
    (hn : '\n' ∉ ("#define " ++ name ++ rest).toList)
    (hb : ("#define " ++ name ++ rest).toList.getLast? ≠ some '\\') :
    Defines ("#define " ++ name ++ rest ++ "\n").toList [name] := by
  have hsome : definedName? [("#define " ++ name ++ rest).toList] = some name := by
    rw [@String.toList_append ("#define " ++ name) rest]
    exact definedName?_define hname hrest []
  have h := line hn hb
  rwa [hsome, ← String.toList_singleton, ← String.toList_append] at h

/-- A macro written by `Macro.define` is one logical line defining it, when its name holds no
blank and its lines no line feed, and its last line does not end with a backslash. -/
theorem define {name : String} {lines : List String} (hname : ' ' ∉ name.toList)
    (hn : ∀ l ∈ ("#define " ++ name) :: lines, '\n' ∉ l.toList)
    (hlast : ∀ l, (("#define " ++ name) :: lines).getLast? = some l → l.toList.getLast? ≠ some '\\') :
    Defines (Macro.define name lines).toList [name] := by
  have hc := @joined_continued (("#define " ++ name).toList :: lines.map String.toList)
    (by simp) (by simpa using hn) (by
      intro l hl
      rw [← List.map_cons, List.getLast?_map, Option.map_eq_some_iff] at hl
      obtain ⟨l', hl', rfl⟩ := hl
      exact hlast l' hl')
  -- the first line is `#define NAME`, then a blank and a backslash if more lines follow
  have hname' : definedName? (continued (("#define " ++ name).toList :: lines.map String.toList)) =
      some name := by
    cases lines with
    | nil => simpa [continued] using @definedName?_define name hname [] (by simp) []
    | cons l ls =>
      simp only [List.map_cons, continued]
      exact definedName?_define hname (by simp) _
  refine ⟨[continued (("#define " ++ name).toList :: lines.map String.toList)],
    ⟨by rw [toList_define, List.flatten_singleton], fun g hg => ?_⟩,
    by rw [List.filterMap_cons_some hname', List.filterMap_nil], fun g hg => ?_⟩
  · rw [List.mem_singleton.1 hg]
    exact hc.1
  · rw [List.mem_singleton.1 hg]
    exact ⟨fun _ => by rw [hname']; rfl, hc.2⟩

end Defines

/-- What a preprocessor reads from a text laid out so: the macros `names`, in order, every line
of a definition but the last ending with a space and a backslash, and no logical line of more
than one physical line that defines no macro. -/
theorem Defines.read {text : String} {names : List String} (h : Defines text.toList names) :
    (defined text).map Prod.fst = names ∧
      (∀ m ∈ defined text, ∀ l ∈ m.2.dropLast, [' ', '\\'] <:+ l) ∧
      ∀ g ∈ logicalLines (text.toList.splitOn '\n'), 2 ≤ g.length → (definedName? g).isSome := by
  obtain ⟨G, hG, hnames, hread⟩ := h
  have hlog := hG.logicalLines_eq
  refine ⟨?_, ?_, ?_⟩
  · rw [defined, hlog, List.filterMap_append, List.map_append, ← hnames]
    simp [List.map_filterMap, Option.map_map, Function.comp_def]
  · intro m hm l hl
    rw [defined, hlog, List.mem_filterMap] at hm
    obtain ⟨g, hg, hgm⟩ := hm
    rcases List.mem_append.1 hg with hg | hg
    · obtain ⟨name, -, rfl⟩ := Option.map_eq_some_iff.1 hgm
      exact (hread g hg).continues l hl
    · rw [List.mem_singleton.1 hg, definedName?_empty] at hgm
      cases hgm
  · intro g hg hlen
    rw [hlog] at hg
    rcases List.mem_append.1 hg with hg | hg
    · exact (hread g hg).defines hlen
    · rw [List.mem_singleton.1 hg] at hlen
      simp at hlen

end TypeReflection.Macro
