import ApiInventory.Files.Replace
import ApiInventory.Proofs.Files.Walk
import ApiInventory.Proofs.Text.Pieces

/-!
# Spellings of a path

A path that is taken apart into components and put together again is spelled differently: dots
and repeated slashes are gone. It still leads to the same directory
(`FileTree.find_ofComponents`), since a dot is a step that stays where it is.

`Path.append` is followed in both readings: the name that is appended is the last component and
the last step.
-/

namespace ApiInventory

namespace Files

/-- A name that an entry of a directory can have. -/
structure IsEntryName (name : String) : Prop where
  nonempty : name ≠ ""
  noSlash : '/' ∉ name.toList
  noDot : name ≠ "."
  noDots : name ≠ ".."

theorem IsEntryName.isName {name : String} (h : IsEntryName name) : FileTree.IsName name :=
  ⟨h.noDot, h.noDots⟩

namespace Component

/-- A component that is spelled as a step of a path. -/
structure IsStep (c : Component) : Prop where
  nonempty : c.text.toList ≠ []
  noSlash : '/' ∉ c.text.toList

theorem isStep_of_mem_inner {c : Component} {piece : List Char} (noSlash : '/' ∉ piece)
    (h : c ∈ Path.inner piece) : c.IsStep := by
  unfold Path.inner at h
  split at h
  · cases h
  · rename_i some
    split at h
    · obtain rfl := List.mem_singleton.mp h
      exact ⟨by simp [text], by simp [text]⟩
    · obtain rfl := List.mem_singleton.mp h
      refine ⟨?_, by simpa [text] using noSlash⟩
      intro empty
      simp [text] at empty
      simp [empty] at some

end Component

namespace Path

open Component (text)

/-- The pieces of a path that are not empty. -/
def names (path : List Char) : List String :=
  ((Text.pieces '/' path).filter (· ≠ [])).map String.ofList

theorem pathSteps_eq (path : String) :
    FileTree.pathSteps path =
      names path.toList ++ if hasTrailingSlash path then ["."] else [] := by
  unfold FileTree.pathSteps names
  split <;> simp

theorem names_append (a b : List Char) : names (a ++ '/' :: b) = names a ++ names b := by
  simp [names, Text.pieces_append]

@[simp] theorem names_nil : names [] = [] := by simp [names, Text.pieces]

theorem names_slashes (count : Nat) : names (List.replicate count '/') = [] := by
  induction count with
  | zero => exact names_nil
  | succ count ih =>
      have split := names_append [] (List.replicate count '/')
      rwa [ih, names_nil] at split

theorem names_of_noSlash {piece : List Char} (some : piece ≠ []) (noSlash : '/' ∉ piece) :
    names piece = [String.ofList piece] := by
  simp [names, Text.pieces_of_not_mem noSlash, some]

theorem names_join {steps : List Component} (plain : ∀ c ∈ steps, c.IsStep) :
    names (Text.join '/' (steps.map fun c => c.text.toList)) = steps.map text := by
  by_cases some : steps = []
  · simp [some, Text.join]
  · have clean : ∀ p ∈ steps.map fun c => c.text.toList, '/' ∉ p := by
      intro p member
      obtain ⟨c, mem, rfl⟩ := List.mem_map.mp member
      exact (plain c mem).noSlash
    have kept : (steps.map fun c => c.text.toList).filter (· ≠ []) =
        steps.map fun c => c.text.toList := by
      rw [List.filter_eq_self]
      intro p member
      obtain ⟨c, mem, rfl⟩ := List.mem_map.mp member
      simpa using (plain c mem).nonempty
    rw [names, Text.pieces_join (by simpa using some) clean, kept]
    simp

/-- Except for dots, the components of some pieces are spelled as the pieces are. -/
theorem text_flatMap_inner (pieces : List (List Char)) :
    (pieces.flatMap inner).map text =
      ((pieces.filter (· ≠ [])).map String.ofList).filter (· ≠ ".") := by
  induction pieces with
  | nil => rfl
  | cons p ps ih =>
      rw [List.flatMap_cons, List.map_append, ih]
      by_cases empty : p = []
      · simp [empty, inner]
      · by_cases dot : p = ['.']
        · simp [dot, inner]
        · have noDot : String.ofList p ≠ "." := by
            intro same
            exact dot (by simpa using congrArg String.toList same)
          by_cases dots : p = ['.', '.']
          · simp [dots, inner, text]
          · simp [empty, dot, dots, inner, text, noDot]

theorem components_of_absolute {path : String} {rest : List Char}
    (h : path.toList = '/' :: rest) :
    components path = .root :: (Text.pieces '/' rest).flatMap inner := by
  simp [components, componentsOf, h]

/-- The components of a relative path are steps. -/
theorem isStep_of_relative {path : String} (h : isAbsolute path = false) :
    ∀ c ∈ components path, c.IsStep := by
  intro c member
  unfold components componentsOf at member
  cases split : Text.pieces '/' path.toList with
  | nil => exact absurd split (Text.pieces_ne_nil _ _)
  | cons first rest =>
      have clean : ∀ p ∈ first :: rest, '/' ∉ p := by
        intro p mem
        exact Text.not_mem_of_mem_pieces (split ▸ mem)
      simp only [split, List.mem_append, List.mem_flatMap] at member
      rcases member with front | ⟨p, mem, inside⟩
      · split at front
        · rename_i root
          simp [isAbsolute, root] at h
        · split at front
          · obtain rfl := List.mem_singleton.mp front
            exact ⟨by simp [text], by simp [text]⟩
          · exact Component.isStep_of_mem_inner (clean first (by simp)) front
      · exact Component.isStep_of_mem_inner (clean p (by simp [mem])) inside

theorem text_components_of_relative {path : String} (h : isAbsolute path = false) :
    ((components path).map text).filter (· ≠ ".") = (names path.toList).filter (· ≠ ".") := by
  unfold components componentsOf names
  cases split : Text.pieces '/' path.toList with
  | nil => exact absurd split (Text.pieces_ne_nil _ _)
  | cons first rest =>
      have root : path.toList.head? ≠ some '/' := by simpa [isAbsolute] using h
      have spelled := congrArg (List.filter (· ≠ ".")) (text_flatMap_inner (first :: rest))
      rw [List.filter_filter, List.flatMap_cons] at spelled
      simp only [Bool.and_self] at spelled
      rw [← spelled]
      by_cases dot : first = ['.']
      · simp [root, dot, inner, text]
      · simp [root, dot]

theorem components_ne_nil {path : String} (h : path ≠ "") : components path ≠ [] := by
  have some : path.toList ≠ [] := by simpa using h
  cases e : path.toList with
  | nil => exact absurd e some
  | cons c cs =>
      by_cases slash : c = '/'
      · subst slash
        simp [components_of_absolute e]
      · unfold components componentsOf
        cases split : Text.pieces '/' path.toList with
        | nil => exact absurd split (Text.pieces_ne_nil _ _)
        | cons first rest =>
            have nonempty : first ≠ [] := by
              intro empty
              rw [e, Text.pieces, if_neg slash] at split
              cases more : Text.pieces '/' cs <;> simp_all
            intro none
            simp only [e, List.head?_cons, Option.some.injEq, slash, if_false] at none
            unfold inner at none
            grind

theorem ofComponents_root (steps : List Component) :
    (ofComponents (.root :: steps)).toList =
      '/' :: Text.join '/' (steps.map fun c => c.text.toList) := by
  simp [ofComponents]

theorem ofComponents_steps {steps : List Component} (plain : ∀ c ∈ steps, c.IsStep) :
    (ofComponents steps).toList = Text.join '/' (steps.map fun c => c.text.toList) := by
  unfold ofComponents
  split
  · exact absurd (plain .root (by simp)).noSlash (by simp [text])
  · simp

theorem head?_join_steps {c : Component} (steps : List Component) (step : c.IsStep) :
    (Text.join '/' ((c :: steps).map fun c => c.text.toList)).head? = c.text.toList.head? := by
  cases steps with
  | nil => rfl
  | cons next steps =>
      rw [List.map_cons, Text.join_cons '/' _ (by simp), List.head?_append]
      cases first : c.text.toList.head? with
      | none => exact absurd (List.head?_eq_none_iff.mp first) step.nonempty
      | some x => rfl

/-- Steps end in something else than a slash. -/
theorem getLast?_join_steps {steps : List Component} (plain : ∀ c ∈ steps, c.IsStep) :
    (Text.join '/' (steps.map fun c => c.text.toList)).getLast? ≠ some '/' := by
  induction steps with
  | nil => simp [Text.join]
  | cons c steps ih =>
      have step := plain c (by simp)
      have ih := ih fun x member => plain x (List.mem_cons_of_mem c member)
      cases steps with
      | nil =>
          intro last
          exact step.noSlash (List.mem_of_getLast? last)
      | cons next steps =>
          rw [List.map_cons, Text.join_cons '/' _ (by simp), List.getLast?_append,
            List.getLast?_cons]
          cases last : (Text.join '/' ((next :: steps).map fun c => c.text.toList)).getLast? with
          | none =>
              have next := plain next (by simp)
              have first := head?_join_steps steps next
              rw [List.getLast?_eq_none_iff.mp last] at first
              exact absurd (List.head?_eq_none_iff.mp first.symm) next.nonempty
          | some x =>
              rw [last] at ih
              simpa using ih

/-- Put together again, a path is spelled by the same steps, dots left out. -/
theorem pathSteps_ofComponents (path : String) :
    (FileTree.pathSteps (ofComponents (components path))).filter (· ≠ ".") =
      (FileTree.pathSteps path).filter (· ≠ ".") := by
  have noTail (b : Bool) : (if b then ["."] else []).filter (fun s : String => s ≠ ".") = [] := by
    cases b <;> rfl
  rw [pathSteps_eq, pathSteps_eq, List.filter_append, List.filter_append, noTail, noTail,
    List.append_nil, List.append_nil]
  cases e : isAbsolute path with
  | true =>
      obtain ⟨rest, split⟩ : ∃ rest, path.toList = '/' :: rest := by
        simpa [isAbsolute, List.head?_eq_some_iff] using e
      have plain : ∀ c ∈ (Text.pieces '/' rest).flatMap inner, c.IsStep := by
        intro c member
        obtain ⟨p, mem, inside⟩ := List.mem_flatMap.mp member
        exact Component.isStep_of_mem_inner (Text.not_mem_of_mem_pieces mem) inside
      have front (l : List Char) : names ('/' :: l) = names l := names_append [] l
      rw [components_of_absolute split, ofComponents_root, split, front, front,
        names_join plain, text_flatMap_inner, List.filter_filter]
      simp [names]
  | false =>
      have plain := isStep_of_relative e
      rw [ofComponents_steps plain, names_join plain, text_components_of_relative e]

/-- Put together again, a path starts where it did. -/
theorem ofComponents_front {path : String} (h : path ≠ "") :
    isAbsolute (ofComponents (components path)) = isAbsolute path ∧
      ofComponents (components path) ≠ "" := by
  cases e : isAbsolute path with
  | true =>
      obtain ⟨rest, split⟩ : ∃ rest, path.toList = '/' :: rest := by
        simpa [isAbsolute, List.head?_eq_some_iff] using e
      have spelled := ofComponents_root ((Text.pieces '/' rest).flatMap inner)
      rw [← components_of_absolute split] at spelled
      exact ⟨by simp [isAbsolute, spelled], fun none => by simp [none] at spelled⟩
  | false =>
      have plain := isStep_of_relative e
      have spelled := ofComponents_steps plain
      cases parts : components path with
      | nil => exact absurd parts (components_ne_nil h)
      | cons c steps =>
          rw [parts] at plain spelled
          have step := plain c (by simp)
          have first := head?_join_steps steps step
          rw [← spelled] at first
          constructor
          · rw [isAbsolute, first]
            have other : c.text.toList.head? ≠ some '/' := fun slash =>
              step.noSlash (List.mem_of_head? slash)
            simpa using other
          · intro none
            rw [none] at first
            exact step.nonempty (List.head?_eq_none_iff.mp first.symm)

/-- Components as a path has them: the root may be in front of steps. -/
def IsSpelled (path : List Component) : Prop :=
  ∃ steps, (path = steps ∨ path = .root :: steps) ∧ ∀ c ∈ steps, c.IsStep

theorem isSpelled_components (path : String) : IsSpelled (components path) := by
  cases absolute : isAbsolute path with
  | false => exact ⟨_, .inl rfl, isStep_of_relative absolute⟩
  | true =>
      obtain ⟨rest, split⟩ : ∃ rest, path.toList = '/' :: rest := by
        simpa [isAbsolute, List.head?_eq_some_iff] using absolute
      refine ⟨_, .inr (components_of_absolute split), fun c member => ?_⟩
      obtain ⟨piece, mem, inside⟩ := List.mem_flatMap.mp member
      exact Component.isStep_of_mem_inner (Text.not_mem_of_mem_pieces mem) inside

theorem IsSpelled.of_front {front path : List Component} (spelled : IsSpelled path)
    (part : front <+: path) : IsSpelled front := by
  obtain ⟨steps, rfl | rfl, plain⟩ := spelled
  · exact ⟨front, .inl rfl, fun c member => plain c (part.mem member)⟩
  · cases front with
    | nil => exact ⟨[], .inl rfl, by simp⟩
    | cons c front =>
        obtain ⟨rfl, rest⟩ := List.cons_prefix_cons.mp part
        exact ⟨front, .inr rfl, fun c member => plain c (rest.mem member)⟩

theorem IsSpelled.last {path : List Component} (spelled : IsSpelled path) :
    ofComponents path = "/" ∨ hasTrailingSlash (ofComponents path) = false := by
  obtain ⟨steps, rfl | rfl, plain⟩ := spelled
  · right
    rw [hasTrailingSlash, ofComponents_steps plain]
    simpa using getLast?_join_steps plain
  · by_cases bare : Text.join '/' (steps.map fun c => c.text.toList) = []
    · left
      apply String.toList_injective
      rw [ofComponents_root, bare]
      rfl
    · right
      rw [hasTrailingSlash, ofComponents_root, List.getLast?_cons_of_ne_nil bare]
      simpa using getLast?_join_steps plain

theorem prefix_of_parentComponents? {path parent : List Component}
    (h : parentComponents? path = some parent) : parent <+: path := by
  unfold parentComponents? at h
  split at h
  · cases h
  · cases h
  · rw [← Option.some.inj h]
    exact List.dropLast_prefix path

theorem isSpelled_parentOf (path : String) : IsSpelled (FileTree.parentOf path) := by
  unfold FileTree.parentOf
  cases above : parentComponents? (components path) with
  | none => exact ⟨[], .inl rfl, by simp⟩
  | some parent =>
      exact (isSpelled_components path).of_front (prefix_of_parentComponents? above)

/-- Put together again, no path but the root ends in a slash. -/
theorem getLast?_ofComponents (path : String) :
    ofComponents (components path) = "/" ∨
      hasTrailingSlash (ofComponents (components path)) = false :=
  (isSpelled_components path).last

/-- What has no slash at its end stays as it is when those are taken off. -/
theorem ofList_dropWhile_of_bare {path : String} (bare : hasTrailingSlash path = false) :
    String.ofList (path.toList.reverse.dropWhile (· = '/')).reverse = path := by
  unfold hasTrailingSlash at bare
  rw [← List.head?_reverse] at bare
  cases e : path.toList.reverse with
  | nil =>
      obtain rfl : path = "" := by simpa using e
      rfl
  | cons c cs =>
      have other : c ≠ '/' := by simpa [e] using bare
      rw [List.dropWhile_cons_of_neg (by simpa using other), ← e, List.reverse_reverse,
        String.ofList_toList]

/-- A path is one without a slash at its end, and slashes behind it. -/
theorem exists_bare (path : String) :
    ∃ (bare : String) (count : Nat), path.toList = bare.toList ++ List.replicate count '/' ∧
      hasTrailingSlash bare = false := by
  let slashes := path.toList.reverse.takeWhile (· = '/')
  let rest := path.toList.reverse.dropWhile (· = '/')
  have split : slashes ++ rest = path.toList.reverse := List.takeWhile_append_dropWhile
  have all : slashes = List.replicate slashes.length '/' := by
    apply List.eq_replicate_of_mem
    intro c member
    simpa using List.all_eq_true.mp List.all_takeWhile c member
  refine ⟨String.ofList rest.reverse, slashes.length, ?_, ?_⟩
  · rw [String.toList_ofList, ← List.reverse_replicate, ← all, ← List.reverse_append, split,
      List.reverse_reverse]
  · rw [hasTrailingSlash, String.toList_ofList, List.getLast?_reverse]
    have first := List.head?_dropWhile_not (fun c : Char => decide (c = '/')) path.toList.reverse
    rcases head : rest.head? with _ | c
    · simp
    · rw [head] at first
      simpa using first

/-! ## Appending a path -/

section Relative

variable {directory path : String}

theorem append_empty (path : String) : append "" path = path := by
  rw [append, if_pos (by simp)]

theorem append_eq (some : directory ≠ "") (relative : isAbsolute path = false) :
    append directory path =
      if hasTrailingSlash directory then directory ++ path else directory ++ "/" ++ path := by
  unfold append hasTrailingSlash
  simp [relative, some]

/-- A directory with a path appended, split before the slash that stands between. -/
theorem exists_toList_append (some : directory ≠ "") (relative : isAbsolute path = false) :
    ∃ front, (append directory path).toList = front ++ '/' :: path.toList ∧
      (directory.toList = front ∨ directory.toList = front ++ ['/']) := by
  rw [append_eq some relative]
  by_cases slash : hasTrailingSlash directory = true
  · obtain ⟨front, split⟩ : ∃ front, directory.toList = front ++ ['/'] := by
      simpa [hasTrailingSlash, List.getLast?_eq_some_iff] using slash
    exact ⟨front, by simp [slash, split], .inr split⟩
  · exact ⟨directory.toList, by simp [slash], .inl rfl⟩

theorem isAbsolute_append (some : directory ≠ "") (relative : isAbsolute path = false) :
    isAbsolute (append directory path) = isAbsolute directory := by
  obtain ⟨front, split, same | same⟩ := exists_toList_append some relative
  · have nonempty : front ≠ [] := by
      rintro rfl
      exact some (String.toList_injective (by simpa using same))
    obtain ⟨c, cs, rfl⟩ := List.exists_cons_of_ne_nil nonempty
    simp [isAbsolute, split, same]
  · cases front <;> simp [isAbsolute, split, same]

/-- The components of a directory stay, and those of the path come behind them, where a dot in front
of it does not count any more. -/
theorem components_append_relative (some : directory ≠ "") (relative : isAbsolute path = false) :
    components (append directory path) =
      components directory ++ (Text.pieces '/' path.toList).flatMap inner := by
  have absolute : (append directory path).toList.head? = .some '/' ↔
      directory.toList.head? = .some '/' := by
    simpa [isAbsolute] using isAbsolute_append some relative
  obtain ⟨front, split, same⟩ := exists_toList_append some relative
  obtain ⟨first, rest, pieces_front⟩ := List.exists_cons_of_ne_nil (Text.pieces_ne_nil '/' front)
  have pieces_whole : Text.pieces '/' (append directory path).toList =
      first :: (rest ++ Text.pieces '/' path.toList) := by
    rw [split, Text.pieces_append, pieces_front]
    rfl
  have pieces_directory : ∃ tail, Text.pieces '/' directory.toList = first :: (rest ++ tail) ∧
      tail.flatMap inner = [] := by
    rcases same with same | same
    · exact ⟨[], by simp [same, pieces_front], rfl⟩
    · exact ⟨[[]], by simp [same, Text.pieces_append, pieces_front, Text.pieces], rfl⟩
  obtain ⟨tail, pieces_directory, nothing⟩ := pieces_directory
  unfold components componentsOf
  rw [pieces_whole, pieces_directory]
  simp only [absolute, List.flatMap_append, nothing, List.append_nil, List.append_assoc]

end Relative

/-! ## Appending a name -/

variable {directory name : String}

theorem isAbsolute_of_entry (entry : IsEntryName name) : isAbsolute name = false := by
  have other : name.toList.head? ≠ .some '/' := fun slash =>
    entry.noSlash (List.mem_of_head? slash)
  simpa [isAbsolute] using other

theorem append_ne_empty (some : directory ≠ "") (entry : IsEntryName name) :
    append directory name ≠ "" := by
  obtain ⟨front, split, _⟩ := exists_toList_append some (isAbsolute_of_entry entry)
  intro empty
  simp [empty] at split

theorem names_toList (entry : IsEntryName name) : names name.toList = [name] := by
  rw [names_of_noSlash (by simpa using entry.nonempty) entry.noSlash, String.ofList_toList]

theorem hasTrailingSlash_append (some : directory ≠ "") (entry : IsEntryName name) :
    hasTrailingSlash (append directory name) = false := by
  obtain ⟨front, split, _⟩ := exists_toList_append some (isAbsolute_of_entry entry)
  have nonempty : name.toList ≠ [] := by simpa using entry.nonempty
  have other : name.toList.getLast? ≠ .some '/' := fun slash =>
    entry.noSlash (List.mem_of_getLast? slash)
  rw [hasTrailingSlash, split, List.getLast?_append, List.getLast?_cons_of_ne_nil nonempty]
  cases last : name.toList.getLast? with
  | none => exact absurd (List.getLast?_eq_none_iff.mp last) nonempty
  | some x =>
      rw [last] at other
      simpa using other

theorem pathSteps_append (some : directory ≠ "") (entry : IsEntryName name) :
    FileTree.pathSteps (append directory name) = names directory.toList ++ [name] := by
  rw [pathSteps_eq, hasTrailingSlash_append some entry]
  obtain ⟨front, split, same | same⟩ := exists_toList_append some (isAbsolute_of_entry entry)
  · simp [split, names_append, names_toList entry, same]
  · simp [split, names_append, names_toList entry, same]

theorem inner_of_entry (entry : IsEntryName name) : inner name.toList = [.normal name] := by
  have nonempty : name.toList ≠ [] := by simpa using entry.nonempty
  have noDot : name.toList ≠ ['.'] := fun dot =>
    entry.noDot (String.toList_injective (by simpa using dot))
  have noDots : name.toList ≠ ['.', '.'] := fun dots =>
    entry.noDots (String.toList_injective (by simpa using dots))
  simp [inner, nonempty, noDot, noDots]

theorem components_of_entry (entry : IsEntryName name) : components name = [.normal name] := by
  have relative : name.toList.head? ≠ .some '/' := by
    simpa [isAbsolute] using isAbsolute_of_entry entry
  have noDot : name.toList ≠ ['.'] := fun dot =>
    entry.noDot (String.toList_injective (by simpa using dot))
  rw [components, componentsOf, Text.pieces_of_not_mem entry.noSlash]
  simp [relative, noDot, inner_of_entry entry]

theorem components_append (some : directory ≠ "") (entry : IsEntryName name) :
    components (append directory name) = components directory ++ [.normal name] := by
  rw [components_append_relative some (isAbsolute_of_entry entry),
    Text.pieces_of_not_mem entry.noSlash, List.flatMap_singleton, inner_of_entry entry]

theorem parentOf_append (some : directory ≠ "") (entry : IsEntryName name) :
    FileTree.parentOf (append directory name) = components directory := by
  simp [FileTree.parentOf, components_append some entry, parentComponents?]

end Path

namespace FileTree

variable {t : FileTree} {links : Nat} {here p : Place} {steps steps' : List String}

theorem leads_dots {follow : Bool} {dots : List String} (all : ∀ s ∈ dots, s = ".") :
    t.Leads follow links here (dots ++ steps) p ↔ t.Leads follow links here steps p := by
  induction dots with
  | nil => rfl
  | cons s dots ih =>
      obtain rfl := all s (by simp)
      rw [List.cons_append, leads_current_iff]
      exact ih fun s member => all s (List.mem_cons_of_mem _ member)

/-- Two lists of steps that are the same except for dots. -/
theorem split_of_filter_eq {s : String} {rest : List String} (noDot : s ≠ ".")
    (same : (s :: rest).filter (· ≠ ".") = steps'.filter (· ≠ ".")) :
    ∃ dots rest', steps' = dots ++ s :: rest' ∧ (∀ x ∈ dots, x = ".") ∧
      rest.filter (· ≠ ".") = rest'.filter (· ≠ ".") := by
  rw [List.filter_cons_of_pos (by simpa using noDot)] at same
  obtain ⟨dots, rest', split, all, _, same⟩ := List.filter_eq_cons_iff.mp same.symm
  exact ⟨dots, rest', split, by simpa using all, same.symm⟩

/-- Dots on the way to a directory do not matter. -/
theorem Leads.of_filter_eq (h : t.Leads true links here steps p)
    (directory : t.get? p = some .directory)
    (same : steps.filter (· ≠ ".") = steps'.filter (· ≠ ".")) :
    t.Leads true links here steps' p := by
  induction h generalizing steps' with
  | here =>
      have all : ∀ s ∈ steps', s = "." := by simpa using same.symm
      rw [← List.append_nil steps']
      exact (leads_dots all).mpr .here
  | current _ ih => exact ih directory (by simpa using same)
  | parent _ ih =>
      obtain ⟨dots, rest', rfl, all, same⟩ := split_of_filter_eq (by decide) same
      exact (leads_dots all).mpr (.parent (ih directory same))
  | directory name unlocked entry _ ih =>
      obtain ⟨dots, rest', rfl, all, same⟩ := split_of_filter_eq name.1 same
      exact (leads_dots all).mpr (.directory name unlocked entry (ih directory same))
  | last _ _ noDirectory => exact absurd directory noDirectory
  | unfollowed _ _ _ stays => cases stays
  | followed name unlocked entry _ nonempty _ ih =>
      obtain ⟨dots, rest', rfl, all, same⟩ := split_of_filter_eq name.1 same
      refine (leads_dots all).mpr (.followed name unlocked entry (.inl rfl) nonempty ?_)
      exact ih directory (by rw [List.filter_append, List.filter_append, same])

variable {cwd : Place} {path : String}

/-- A directory is found by the components of its path, too. -/
theorem find_ofComponents (h : t.find cwd path = .ok (p, .directory)) :
    t.find cwd (Path.ofComponents (Path.components path)) = .ok (p, .directory) := by
  obtain ⟨located, entry⟩ := find_eq_ok_iff.mp h
  obtain ⟨some, leads⟩ := locate_eq_ok_iff.mp located
  obtain ⟨front, nonempty⟩ := Path.ofComponents_front some
  have same := Path.pathSteps_ofComponents path
  have leads := leads.of_filter_eq entry same.symm
  refine find_eq_ok_iff.mpr ⟨locate_eq_ok_iff.mpr ⟨nonempty, ?_⟩, entry⟩
  rwa [pathBase, front]

/-- Where a directory is found, none is made. -/
theorem makeDirectory_of_find (h : t.find cwd path = .ok (p, .directory))
    (bare : path = "/" ∨ Path.hasTrailingSlash path = false) :
    t.makeDirectory cwd path = .error .alreadyExists := by
  obtain ⟨located, entry⟩ := find_eq_ok_iff.mp h
  obtain ⟨some, leads⟩ := locate_eq_ok_iff.mp located
  unfold makeDirectory
  rcases bare with rfl | bare
  · simp
  · rw [Path.ofList_dropWhile_of_bare bare, if_neg some, if_neg some]
    rcases leads.unfollowed_or_link with leads | ⟨q, target, leads, link⟩
    · rw [locate_eq_ok_iff.mpr ⟨some, leads⟩]
      simp [entry]
    · rw [locate_eq_ok_iff.mpr ⟨some, leads⟩]
      simp [link]

theorem makeDirectories_of_find (h : t.find cwd path = .ok (p, .directory)) :
    t.makeDirectories cwd (Path.components path) = ⟨t, .ok ()⟩ := by
  obtain ⟨some, _⟩ := locate_eq_ok_iff.mp (find_eq_ok_iff.mp h).1
  have there := find_ofComponents h
  rw [makeDirectories, makeDirectoriesAs, if_neg (Path.components_ne_nil some),
    makeDirectory_of_find there (Path.getLast?_ofComponents path)]
  simp [isDirectory, there]

theorem makeDirectories_parentOf (h : t.find cwd (folderOf path) = .ok (p, .directory)) :
    t.makeDirectories cwd (parentOf path) = ⟨t, .ok ()⟩ := by
  unfold folderOf at h
  rw [makeDirectories, makeDirectoriesAs]
  split
  · rfl
  · rename_i some
    rw [if_neg some] at h
    rw [makeDirectory_of_find h (Path.isSpelled_parentOf path).last]
    simp [isDirectory, h]

/-- Slashes at the end of a path do not count when a directory is made. -/
theorem makeDirectory_of_slashes {bare : String} {count : Nat} (some : bare ≠ "")
    (noSlash : Path.hasTrailingSlash bare = false)
    (split : path.toList = bare.toList ++ List.replicate count '/') :
    t.makeDirectory cwd path = t.makeDirectory cwd bare := by
  have trimmed : path.toList.reverse.dropWhile (· = '/') =
      bare.toList.reverse.dropWhile (· = '/') := by
    rw [split, List.reverse_append, List.reverse_replicate, List.dropWhile_append]
    simp
  have some' : path ≠ "" := by
    rintro rfl
    exact some (by simpa using List.append_eq_nil_iff.mp split.symm |>.1)
  simp only [makeDirectory, trimmed, Path.ofList_dropWhile_of_bare noSlash, if_neg some,
    if_neg some']

/-- They do not count for a directory that is there, either. -/
theorem find_of_slashes {bare : String} {count : Nat} (some : bare ≠ "")
    (split : path.toList = bare.toList ++ List.replicate count '/')
    (h : t.find cwd path = .ok (p, .directory)) : t.find cwd bare = .ok (p, .directory) := by
  obtain ⟨located, entry⟩ := find_eq_ok_iff.mp h
  obtain ⟨_, leads⟩ := locate_eq_ok_iff.mp located
  have front : Path.isAbsolute path = Path.isAbsolute bare := by
    have nonempty : bare.toList ≠ [] := by simpa using some
    rw [Path.isAbsolute, Path.isAbsolute, split, List.head?_append,
      List.head?_eq_some_head nonempty, Option.some_or]
  have names : Path.names path.toList = Path.names bare.toList := by
    rw [split]
    cases count with
    | zero => simp
    | succ count =>
        rw [List.replicate_succ, Path.names_append, Path.names_slashes, List.append_nil]
  have same : (pathSteps path).filter (· ≠ ".") = (pathSteps bare).filter (· ≠ ".") := by
    rw [Path.pathSteps_eq, Path.pathSteps_eq, names, List.filter_append, List.filter_append]
    congr 1
    split <;> split <;> rfl
  refine find_eq_ok_iff.mpr ⟨locate_eq_ok_iff.mpr ⟨some, ?_⟩, entry⟩
  rw [pathBase, ← front]
  exact leads.of_filter_eq entry same

/-- However the path of a directory is spelled, nothing is made where it leads. -/
theorem openDirectories_of_find (h : t.find cwd path = .ok (p, .directory)) :
    t.openDirectories cwd path = ⟨t, .ok ()⟩ := by
  obtain ⟨some, _⟩ := locate_eq_ok_iff.mp (find_eq_ok_iff.mp h).1
  obtain ⟨bare, count, split, noSlash⟩ := Path.exists_bare path
  have there : t.makeDirectory cwd path = .error .alreadyExists := by
    by_cases empty : bare = ""
    · have root : String.ofList (path.toList.reverse.dropWhile (· = '/')).reverse = "" := by
        simp [split, empty]
      simp only [makeDirectory, root, if_neg some, if_true]
    · rw [makeDirectory_of_slashes empty noSlash split]
      exact makeDirectory_of_find (find_of_slashes empty split h) (.inr noSlash)
  rw [openDirectories, makeDirectoriesAs, if_neg (Path.components_ne_nil some), there]
  simp [isDirectory, h]

/-- A point at the end of a path is a step, which leads nowhere as long as there is no directory. -/
example : (openDirectories ∅ [] "d/.").result = .error .notFound := by cbv

end FileTree

end Files

end ApiInventory
