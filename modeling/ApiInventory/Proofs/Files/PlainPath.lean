import ApiInventory.Proofs.Files.Entries
import ApiInventory.Proofs.Files.Replacement

/-!
# Paths of plain names

Where no links lie along the names of a path, what can be done at the path depends on what stands
there and on nothing else: nothing, a directory or a file, or a file at some name before the last,
which is in the way of all that comes after it (`Stands`).

`PlainPath` also allows links in front of such names, as long as the way by them does not come by
the names. Nothing that is done at the path changes that (`PlainPath.effect`).
-/

namespace ApiInventory.Files

namespace Path

variable {names : List String}

theorem isStep_of_entries (entries : ∀ n ∈ names, IsEntryName n) :
    ∀ c ∈ names.map Component.normal, c.IsStep := by
  intro c member
  obtain ⟨n, mem, rfl⟩ := List.mem_map.mp member
  exact ⟨by simpa [Component.text] using (entries n mem).nonempty, (entries n mem).noSlash⟩

theorem toList_joinSteps (some : names ≠ []) :
    (joinSteps names).toList =
      Text.join '/' ((names.map Component.normal).map fun c => c.text.toList) := by
  rw [joinSteps, if_neg (by simpa using some), String.toList_ofList, List.map_map]
  rfl

section Entries

variable (entries : ∀ n ∈ names, IsEntryName n)
include entries

theorem ofComponents_normal (some : names ≠ []) :
    ofComponents (names.map .normal) = joinSteps names := by
  apply String.toList_injective
  rw [ofComponents_steps (isStep_of_entries entries), toList_joinSteps some]

theorem components_joinSteps (some : names ≠ []) :
    components (joinSteps names) = names.map .normal := by
  obtain ⟨first, rest, rfl⟩ := List.exists_cons_of_ne_nil some
  have clean : ∀ p ∈ (first :: rest).map String.toList, '/' ∉ p := by
    intro p member
    obtain ⟨n, mem, rfl⟩ := List.mem_map.mp member
    exact (entries n mem).noSlash
  have spelled : (joinSteps (first :: rest)).toList =
      Text.join '/' ((first :: rest).map String.toList) := by
    rw [joinSteps, if_neg (by simp), String.toList_ofList]
  have pieces : Text.pieces '/' (joinSteps (first :: rest)).toList =
      first.toList :: rest.map String.toList := by
    rw [spelled, Text.pieces_join (by simp) clean]
    rfl
  have entry := entries first (by simp)
  have head : (joinSteps (first :: rest)).toList.head? ≠ .some '/' := by
    have step := isStep_of_entries entries (.normal first) (by simp)
    rw [toList_joinSteps some, List.map_cons, head?_join_steps _ step]
    exact fun slash => entry.noSlash (List.mem_of_head? slash)
  have noDot : first.toList ≠ ['.'] := fun dot =>
    entry.noDot (String.toList_injective (by simpa using dot))
  have inside : (rest.map String.toList).flatMap inner = rest.map .normal := by
    rw [List.flatMap_map, List.map_eq_flatMap]
    exact List.flatMap_congr fun n member =>
      inner_of_entry (entries n (List.mem_cons_of_mem _ member))
  rw [components, componentsOf, pieces]
  simp only [head, noDot, if_false, inner_of_entry entry, inside]
  rfl

theorem hasTrailingSlash_joinSteps : hasTrailingSlash (joinSteps names) = false := by
  by_cases some : names = []
  · subst some
    rfl
  · have last := getLast?_join_steps (isStep_of_entries entries)
    rw [← toList_joinSteps some] at last
    simpa [hasTrailingSlash] using last

theorem isAbsolute_joinSteps : isAbsolute (joinSteps names) = false := by
  rcases names with _ | ⟨first, rest⟩
  · rfl
  · have step := isStep_of_entries entries (.normal first) (by simp)
    have head : (joinSteps (first :: rest)).toList.head? ≠ some '/' := by
      rw [toList_joinSteps (by simp), List.map_cons, head?_join_steps _ step]
      exact fun slash => (entries first (by simp)).noSlash (List.mem_of_head? slash)
    simpa [isAbsolute] using head

theorem joinSteps_ne_empty : joinSteps names ≠ "" := by
  rcases names with _ | ⟨first, rest⟩
  · decide
  · intro empty
    have step := isStep_of_entries entries (.normal first) (by simp)
    have head := head?_join_steps (rest.map Component.normal) step
    rw [← List.map_cons, ← toList_joinSteps (by simp), empty] at head
    exact step.nonempty (List.head?_eq_none_iff.mp head.symm)

theorem pathSteps_joinSteps (some : names ≠ []) : FileTree.pathSteps (joinSteps names) = names := by
  rw [pathSteps_eq, hasTrailingSlash_joinSteps entries, toList_joinSteps some,
    Path.names_join (isStep_of_entries entries), List.map_map]
  have texts : names.map (Component.text ∘ .normal) = names := List.map_id names
  simp [texts]

end Entries

end Path

namespace FileTree

variable {t t' : FileTree} {cwd home p q : Place} {names : List String}

theorem locate_joinSteps (entries : ∀ n ∈ names, IsEntryName n) (follow : Bool) :
    t.locate cwd (Path.joinSteps names) follow = t.walk follow linkLimit cwd names := by
  rw [locate, if_neg (Path.joinSteps_ne_empty entries), Path.isAbsolute_joinSteps entries]
  by_cases some : names = []
  · subst some
    have dot : pathSteps (Path.joinSteps []) = ["."] := by decide
    rw [dot]
    simp [walk]
  · rw [Path.pathSteps_joinSteps entries some]
    rfl

/-! ## Along the names -/

/-- Trees that differ at most where some names below a directory lead. -/
def SameBeside (t t' : FileTree) (home : Place) (names : List String) : Prop :=
  ∀ q, (∀ p, p <+: names → p ≠ [] → q ≠ home ++ p) →
    t'.get? q = t.get? q ∧ t'.isLocked q = t.isLocked q

theorem SameBeside.trans {t'' : FileTree} (h : t.SameBeside t' home names)
    (h' : t'.SameBeside t'' home names) : t.SameBeside t'' home names :=
  fun q beside => ⟨(h' q beside).1.trans (h q beside).1, (h' q beside).2.trans (h q beside).2⟩

/-- A path of plain names. Those in front lead to a directory `home`, whatever is where the other
ones lead from there. Along these other ones there are no links, nothing is locked and only
directories have something below them. -/
structure PlainPath (t : FileTree) (cwd : Place) (front : List String) (home : Place)
    (names : List String) : Prop where
  entries : ∀ n ∈ front ++ names, IsEntryName n
  nonempty : names ≠ []
  leads : ∀ t', t.SameBeside t' home names → t'.Leads true linkLimit cwd front home
  start : t.get? home = some .directory
  unlocked : ∀ p, p <+: names → t.isLocked (home ++ p) = false
  noLink : ∀ p, p <+: names → ∀ target, t.get? (home ++ p) ≠ some (.link target)
  above : ∀ p n, p ++ [n] <+: names → t.get? (home ++ (p ++ [n])) ≠ none →
    t.get? (home ++ p) = some .directory

/-- What stands at a path. -/
inductive Standing where
  /-- A name before the last one is that of a file. -/
  | blocked
  | absent
  | directory
  | file (content : ByteArray)

/-- What comes of reading there. -/
def Standing.read : Standing → Except FileError ByteArray
  | blocked => .error .notDirectory
  | absent => .error .notFound
  | directory => .error .isDirectory
  | file content => .ok content

/-- Whether a file can be put there. -/
def Standing.takesFile : Standing → Bool
  | blocked | directory => false
  | absent | file _ => true

inductive Stands (t : FileTree) (home : Place) (names : List String) : Standing → Prop
  | blocked {p : List String} {content : ByteArray} (part : p <+: names) (proper : p ≠ names)
      (file : t.get? (home ++ p) = some (.file content)) : Stands t home names .blocked
  | absent (missing : t.get? (home ++ names) = none)
      (free : ∀ p, p <+: names → ∀ content, t.get? (home ++ p) ≠ some (.file content)) :
      Stands t home names .absent
  | directory (there : t.get? (home ++ names) = some .directory) : Stands t home names .directory
  | file {content : ByteArray} (there : t.get? (home ++ names) = some (.file content)) :
      Stands t home names (.file content)

namespace PlainPath

variable {front : List String} (h : t.PlainPath cwd front home names)
include h

/-- Something stands at the path, if only nothing. -/
theorem exists_stands : ∃ s, t.Stands home names s := by
  rcases there : t.get? (home ++ names) with _ | (content | _ | target)
  · by_cases free : ∀ p, p <+: names → ∀ content, t.get? (home ++ p) ≠ some (.file content)
    · exact ⟨_, .absent there free⟩
    · push Not at free
      obtain ⟨p, part, content, file⟩ := free
      refine ⟨_, .blocked part ?_ file⟩
      rintro rfl
      rw [there] at file
      cases file
  · exact ⟨_, .file there⟩
  · exact ⟨_, .directory there⟩
  · exact absurd there (h.noLink names List.prefix_rfl target)

/-- Above what is there, there are directories. -/
theorem directory_above (part : p <+: names) (there : t.get? (home ++ p) ≠ none)
    (front : q <+: p) (proper : q ≠ p) : t.get? (home ++ q) = some .directory := by
  induction p using List.reverseRecOn with
  | nil => exact absurd (List.prefix_nil.mp front) proper
  | append_singleton p n ih =>
      have inside := (List.prefix_concat_iff.mp front).resolve_left proper
      have directory := h.above p n part there
      by_cases last : q = p
      · rw [last, directory]
      · exact ih (List.IsPrefix.trans (List.prefix_append p [n]) part) (by simp [directory]) inside
          last

theorem directory_of_part (part : p <+: names) (there : t.get? (home ++ p) = some .directory)
    (front : q <+: p) : t.get? (home ++ q) = some .directory := by
  by_cases same : q = p
  · rw [same, there]
  · exact h.directory_above part (by simp [there]) front same

/-- Where no directory is, the last directory on the way there has something else or nothing under
the next name. -/
theorem exists_boundary (part : p <+: names) (noDirectory : t.get? (home ++ p) ≠ some .directory) :
    ∃ q n rest, p = q ++ n :: rest ∧ t.get? (home ++ q) = some .directory ∧
      t.get? (home ++ (q ++ [n])) ≠ some .directory := by
  induction p using List.reverseRecOn with
  | nil => exact absurd h.start (by simpa using noDirectory)
  | append_singleton p n ih =>
      by_cases directory : t.get? (home ++ p) = some .directory
      · exact ⟨p, n, [], rfl, directory, noDirectory⟩
      · obtain ⟨q, m, rest, rfl, there, other⟩ :=
          ih (List.IsPrefix.trans (List.prefix_append p [n]) part) directory
        exact ⟨q, m, rest ++ [n], by simp, there, other⟩

theorem leads_directory (part : p <+: names) (there : t.get? (home ++ p) = some .directory) :
    t.Leads true linkLimit cwd (front ++ p) (home ++ p) := by
  induction p using List.reverseRecOn with
  | nil => simpa using h.leads t fun _ _ => ⟨rfl, rfl⟩
  | append_singleton p n ih =>
      have shorter := List.IsPrefix.trans (List.prefix_append p [n]) part
      have directory := h.directory_of_part part there (List.prefix_append p [n])
      have entry := h.entries n (List.mem_append_right _ (part.mem (by simp)))
      have onward :=
        (ih shorter directory).append_name directory (h.unlocked p shorter) entry.isName
      rw [List.append_assoc, List.append_assoc] at onward
      exact onward.followed_of_not_link (by simp [there])

/-- A walk by the names goes on from the last directory that it comes to. -/
theorem walk_eq {n : String} {rest : List String} (part : p ++ n :: rest <+: names)
    (directory : t.get? (home ++ p) = some .directory)
    (noDirectory : rest ≠ [] → t.get? (home ++ (p ++ [n])) ≠ some .directory) (follow : Bool) :
    t.walk follow linkLimit cwd (front ++ (p ++ n :: rest)) =
      if rest = [] then .ok (home ++ (p ++ [n]))
      else if t.get? (home ++ (p ++ [n])) = none then .error .notFound
      else .error .notDirectory := by
  have shorter := List.IsPrefix.trans (List.prefix_append p (n :: rest)) part
  have next : p ++ [n] <+: names :=
    ((List.prefix_append_right_inj p).mpr (List.prefix_append [n] rest)).trans part
  have name := (h.entries n (List.mem_append_right _ (part.mem (by simp)))).isName
  have noLink := h.noLink _ next
  obtain ⟨left, onward⟩ : ∃ left, t.walk follow linkLimit cwd (front ++ p ++ n :: rest) =
      t.walk follow left (home ++ p) (n :: rest) :=
    (h.leads_directory shorter directory).walk_append directory (List.cons_ne_nil n rest)
  rw [← List.append_assoc, onward, walk, if_neg name.1, if_neg name.2, h.unlocked p shorter,
    if_neg (by simp)]
  rw [← List.append_assoc] at noDirectory noLink ⊢
  dsimp only
  rcases there : t.get? (home ++ p ++ [n]) with _ | (_ | _ | target)
  · simp
  · simp
  · have last : rest = [] := by
      by_contra more
      exact noDirectory more there
    simp [last, walk]
  · exact absurd there (noLink target)

theorem entries_of_part (part : p <+: names) : ∀ n ∈ front ++ p, IsEntryName n := by
  intro n member
  rcases List.mem_append.mp member with inside | inside
  · exact h.entries n (List.mem_append_left _ inside)
  · exact h.entries n (List.mem_append_right _ (part.mem inside))

theorem locate_eq (part : p <+: names) (follow : Bool) :
    t.locate cwd (Path.joinSteps (front ++ p)) follow =
      t.walk follow linkLimit cwd (front ++ p) :=
  locate_joinSteps (h.entries_of_part part) follow

/-- In a directory, the next name leads to what lies under it. -/
theorem locate_of_directory {n : String} (part : p ++ [n] <+: names)
    (directory : t.get? (home ++ p) = some .directory) (follow : Bool) :
    t.locate cwd (Path.joinSteps (front ++ (p ++ [n]))) follow = .ok (home ++ (p ++ [n])) := by
  rw [h.locate_eq part, h.walk_eq part directory (by simp), if_pos rfl]

/-- Where the directory is missing, a name leads nowhere, and the reason is the first thing on the
way that is no directory. -/
theorem locate_of_no_directory {n : String} (part : p ++ [n] <+: names)
    (noDirectory : t.get? (home ++ p) ≠ some .directory) (follow : Bool) :
    ((∀ q, q <+: p → ∀ content, t.get? (home ++ q) ≠ some (.file content)) ∧
      t.locate cwd (Path.joinSteps (front ++ (p ++ [n]))) follow = .error .notFound) ∨
    (∃ q content, q <+: p ∧ t.get? (home ++ q) = some (.file content)) ∧
      t.locate cwd (Path.joinSteps (front ++ (p ++ [n]))) follow = .error .notDirectory := by
  have shorter := List.IsPrefix.trans (List.prefix_append p [n]) part
  obtain ⟨q, m, rest, rfl, there, other⟩ := h.exists_boundary shorter noDirectory
  have next : q ++ [m] <+: q ++ m :: rest :=
    (List.prefix_append_right_inj q).mpr (List.prefix_append [m] rest)
  have whole : q ++ m :: (rest ++ [n]) <+: names := by simpa using part
  have walked := h.walk_eq whole there (fun _ => other) follow
  rw [if_neg (by simp)] at walked
  rw [h.locate_eq part, List.append_assoc, List.cons_append, walked]
  rcases entry : t.get? (home ++ (q ++ [m])) with _ | (content | _ | target)
  · -- a file could be neither above the directory nor below what is not there
    refine .inl ⟨fun r inside content file => ?_, by simp⟩
    have some : t.get? (home ++ r) ≠ none := by simp [file]
    rcases List.prefix_or_prefix_of_prefix inside next with before | after
    · rcases List.prefix_concat_iff.mp before with rfl | before
      · exact some entry
      · have directory := h.directory_of_part
          (List.IsPrefix.trans (List.prefix_append q (m :: rest)) shorter) there before
        simp [directory] at file
    · by_cases same : q ++ [m] = r
      · exact some (same ▸ entry)
      · have directory := h.directory_above (inside.trans shorter) some after same
        simp [directory] at entry
  · exact .inr ⟨⟨q ++ [m], content, next, entry⟩, by simp⟩
  · exact absurd entry other
  · exact absurd entry (h.noLink _ (next.trans shorter) target)

omit h in
theorem exists_concat (h : t.PlainPath cwd front home names) : ∃ p n, names = p ++ [n] := by
  rcases List.eq_nil_or_concat names with empty | ⟨p, n, split⟩
  · exact absurd empty h.nonempty
  · exact ⟨p, n, by simpa using split⟩

theorem read_eq {s : Standing} (stands : t.Stands home names s) :
    t.read cwd (Path.joinSteps (front ++ names)) = s.read := by
  obtain ⟨p, n, rfl⟩ := h.exists_concat
  have part : p ++ [n] <+: p ++ [n] := List.prefix_rfl
  have shorter := List.prefix_append p [n]
  have unlocked := h.unlocked _ part
  cases stands with
  | blocked inside proper file =>
      have above := (List.prefix_concat_iff.mp inside).resolve_left proper
      have noDirectory : t.get? (home ++ p) ≠ some .directory := fun directory => by
        simp [h.directory_of_part shorter directory above] at file
      rcases h.locate_of_no_directory part noDirectory true with ⟨free, _⟩ | ⟨_, lost⟩
      · exact absurd file (free _ above _)
      · rw [read, find, lost]
        rfl
  | absent missing free =>
      by_cases directory : t.get? (home ++ p) = some .directory
      · rw [read, find, h.locate_of_directory part directory true]
        simp [missing, Standing.read]
      · rcases h.locate_of_no_directory part directory true with
          ⟨_, lost⟩ | ⟨⟨q, c, above, file⟩, _⟩
        · rw [read, find, lost]
          rfl
        · exact absurd file (free q (above.trans shorter) c)
  | directory there =>
      have located := h.locate_of_directory part (h.above p n part (by simp [there])) true
      rw [read, find, located]
      simp [there, Standing.read]
  | file there =>
      have located := h.locate_of_directory part (h.above p n part (by simp [there])) true
      rw [read, find, located]
      simp [there, unlocked, Standing.read]

/-! ## What is done at the path -/

end PlainPath

/-- Directories have been made at the names up to some one, as far as they were missing. -/
structure MadeUpTo (t t' : FileTree) (home : Place) (p : List String) : Prop where
  free : ∀ q, q <+: p → t.get? (home ++ q) = none ∨ t.get? (home ++ q) = some .directory
  inside : ∀ q, q <+: p → t'.get? (home ++ q) = some .directory
  beside : ∀ q, (∀ r, r <+: p → q ≠ home ++ r) → t'.get? q = t.get? q
  isLocked : ∀ q, t'.isLocked q = t.isLocked q

theorem MadeUpTo.get?_next (h : t.MadeUpTo t' home p) (n : String) :
    t'.get? (home ++ (p ++ [n])) = t.get? (home ++ (p ++ [n])) := by
  refine h.beside _ fun r front same => ?_
  obtain rfl := List.append_cancel_left same
  exact absurd front.length_le (by simp)

/-- How a tree is changed by what is done at a path. -/
inductive Effect (t : FileTree) (home : Place) (names : List String) : FileTree → Prop
  | directories {made t' : FileTree} {p : List String} (part : p <+: names)
      (above : t.MadeUpTo made home p) (alike : made.Alike t') : Effect t home names t'
  | file {made t' : FileTree} {p : List String} {n : String} {content : ByteArray}
      (split : names = p ++ [n]) (above : t.MadeUpTo made home p)
      (noDirectory : t.get? (home ++ names) ≠ some .directory)
      (alike : (made.set (home ++ names) (.file content)).Alike t') : Effect t home names t'
  | gone {t' : FileTree} (alike : (t.erase (home ++ names)).Alike t') : Effect t home names t'

namespace PlainPath

variable {front : List String} (h : t.PlainPath cwd front home names)
include h

theorem madeUpTo (part : p <+: names) (there : t.get? (home ++ p) = some .directory) :
    t.MadeUpTo t home p where
  free _ front := .inr (h.directory_of_part part there front)
  inside _ front := h.directory_of_part part there front
  beside _ _ := rfl
  isLocked _ := rfl

/-- Nothing is changed where the directory is at most where the names begin. -/
theorem unchanged : t.Effect home names t :=
  .directories List.nil_prefix (h.madeUpTo List.nil_prefix (by simpa using h.start)) (.refl t)

theorem of_alike (alike : t.Alike t') : t'.PlainPath cwd front home names where
  entries := h.entries
  nonempty := h.nonempty
  leads t'' same := h.leads t'' fun q beside => by
    rw [(same q beside).1, (same q beside).2, alike.get?, alike.isLocked]
    exact ⟨rfl, rfl⟩
  start := by rw [alike.get?, h.start]
  unlocked p part := by rw [alike.isLocked, h.unlocked p part]
  noLink p part := by simpa only [alike.get?] using h.noLink p part
  above p n part := by simpa only [alike.get?] using h.above p n part

theorem of_madeUpTo (part : p <+: names) (made : t.MadeUpTo t' home p) :
    t'.PlainPath cwd front home names := by
  have inside_or_same (r : List String) :
      t'.get? (home ++ r) = some .directory ∨ t'.get? (home ++ r) = t.get? (home ++ r) := by
    by_cases inside : r <+: p
    · exact .inl (made.inside r inside)
    · refine .inr (made.beside _ ?_)
      rintro q front same
      obtain rfl := List.append_cancel_left same
      exact inside front
  have beside : t.SameBeside t' home names := by
    intro q beside
    refine ⟨?_, made.isLocked q⟩
    by_cases top : q = home
    · subst top
      have there := made.inside [] List.nil_prefix
      rw [List.append_nil] at there
      rw [there, h.start]
    · refine made.beside q fun r front same => ?_
      by_cases none : r = []
      · exact top (by rw [same, none, List.append_nil])
      · exact beside r (front.trans part) none same
  exact {
    entries := h.entries
    nonempty := h.nonempty
    leads := fun t'' same => h.leads t'' (beside.trans same)
    start := by simpa using made.inside [] List.nil_prefix
    unlocked := fun q front => by rw [made.isLocked, h.unlocked q front]
    noLink := by
      intro q front target
      rcases inside_or_same q with there | same
      · simp [there]
      · rw [same]
        exact h.noLink q front target
    above := by
      intro q n front some
      rcases inside_or_same q with there | same
      · exact there
      · by_cases inside : q ++ [n] <+: p
        · exact made.inside q (List.IsPrefix.trans (List.prefix_append q [n]) inside)
        · have same' : t'.get? (home ++ (q ++ [n])) = t.get? (home ++ (q ++ [n])) := by
            refine made.beside _ ?_
            rintro r front' same
            obtain rfl := List.append_cancel_left same
            exact inside front'
          rw [same'] at some
          rw [same]
          exact h.above q n front some }

theorem place_ne_nil : home ++ names ≠ [] := List.append_ne_nil_of_right_ne_nil home h.nonempty

/-- The path stays a path of plain names when the tree has changed in its last place only. -/
theorem of_last (get? : ∀ r ≠ home ++ names, t'.get? r = t.get? r)
    (isLocked : ∀ r ≠ home ++ names, t'.isLocked r = t.isLocked r)
    (unlocked : t'.isLocked (home ++ names) = false)
    (noLink : ∀ target, t'.get? (home ++ names) ≠ some (.link target))
    (above : t'.get? (home ++ names) ≠ none →
      ∀ p n, names = p ++ [n] → t.get? (home ++ p) = some .directory) :
    t'.PlainPath cwd front home names := by
  have other {r : List String} (proper : r ≠ names) : home ++ r ≠ home ++ names :=
    fun same => proper (List.append_cancel_left same)
  have beside : t.SameBeside t' home names := fun q beside => by
    have elsewhere := beside names List.prefix_rfl h.nonempty
    exact ⟨get? q elsewhere, isLocked q elsewhere⟩
  have homeless : home ≠ home ++ names := by simpa using h.nonempty
  exact {
    entries := h.entries
    nonempty := h.nonempty
    leads := fun t'' same => h.leads t'' (beside.trans same)
    start := by rw [get? home homeless, h.start]
    unlocked := by
      intro r front
      by_cases last : r = names
      · rw [last, unlocked]
      · rw [isLocked _ (other last), h.unlocked r front]
    noLink := by
      intro r front
      by_cases last : r = names
      · rwa [last]
      · rw [get? _ (other last)]
        exact h.noLink r front
    above := by
      intro r n front some
      have proper : r ≠ names := by
        rintro rfl
        exact absurd front.length_le (by simp)
      rw [get? _ (other proper)]
      by_cases last : r ++ [n] = names
      · exact above (last ▸ some) r n last.symm
      · rw [get? _ (other last)] at some
        exact h.above r n front some }

theorem of_set {n : String} {content : ByteArray} (split : names = p ++ [n])
    (directory : t.get? (home ++ p) = some .directory) :
    (t.set (home ++ names) (.file content)).PlainPath cwd front home names := by
  have ne := h.place_ne_nil
  refine h.of_last ?_ ?_ ?_ ?_ ?_
  · exact fun r other => get?_set_of_ne ne other
  · exact fun r other => isLocked_set_of_ne ne other
  · rw [isLocked_set _ _ _ _ ne, if_pos rfl]
  · simp [ne]
  · rintro - q m same
    obtain ⟨rfl, -⟩ := List.append_inj' (split.symm.trans same) rfl
    exact directory

theorem of_erase : (t.erase (home ++ names)).PlainPath cwd front home names := by
  have ne := h.place_ne_nil
  refine h.of_last ?_ ?_ ?_ ?_ ?_
  · intro r other
    rw [get?_erase _ _ _ ne, if_neg other]
  · intro r other
    rw [isLocked_erase _ ne, if_neg other]
  · rw [isLocked_erase _ ne, if_pos rfl]
  · simp [ne]
  · simp [ne]

/-- A path of plain names stays one, whatever is done at it. -/
theorem effect (effect : t.Effect home names t') : t'.PlainPath cwd front home names := by
  cases effect with
  | directories part above alike => exact (h.of_madeUpTo part above).of_alike alike
  | @file made _ p n content split above _ alike =>
      have part : p <+: names := split ▸ List.prefix_append p [n]
      have directory := above.inside p List.prefix_rfl
      exact ((h.of_madeUpTo part above).of_set split directory).of_alike alike
  | gone alike => exact h.of_erase.of_alike alike

/-! ## Directories -/

/-- A directory is made under a name where there is a directory and nothing has the name. -/
theorem makeDirectory_eq {n : String} (part : p ++ [n] <+: names)
    (directory : t.get? (home ++ p) = some .directory) :
    t.makeDirectory cwd (Path.joinSteps (front ++ (p ++ [n]))) =
      if t.get? (home ++ (p ++ [n])) = none then .ok (t.set (home ++ (p ++ [n])) .directory)
      else .error .alreadyExists := by
  have entries := h.entries_of_part part
  have bare := Path.ofList_dropWhile_of_bare (Path.hasTrailingSlash_joinSteps entries)
  have some := Path.joinSteps_ne_empty entries
  rw [makeDirectory, bare, if_neg some, if_neg some, h.locate_of_directory part directory]
  dsimp only
  cases there : t.get? (home ++ (p ++ [n])) <;> simp

theorem makeDirectories_start :
    t.makeDirectories cwd (front.map .normal) = ⟨t, .ok ()⟩ := by
  by_cases bare : front = []
  · rw [bare, List.map_nil, makeDirectories, makeDirectoriesAs, if_pos rfl]
  · have entries : ∀ n ∈ front, IsEntryName n :=
      fun n member => h.entries n (List.mem_append_left _ member)
    have leads := h.leads_directory List.nil_prefix (by simpa using h.start)
    rw [List.append_nil, List.append_nil] at leads
    have located : t.locate cwd (Path.joinSteps front) true = .ok home := by
      rw [locate_joinSteps entries, walk_eq_ok_iff]
      exact leads
    have made := makeDirectories_of_find (find_eq_ok_iff.mpr ⟨located, h.start⟩)
    rwa [Path.components_joinSteps entries bare] at made

theorem makeDirectory_of_locate_error {n : String} {e : FileError} (part : p ++ [n] <+: names)
    (lost : t.locate cwd (Path.joinSteps (front ++ (p ++ [n]))) false = .error e) :
    t.makeDirectory cwd (Path.joinSteps (front ++ (p ++ [n]))) = .error e := by
  have entries := h.entries_of_part part
  have bare := Path.ofList_dropWhile_of_bare (Path.hasTrailingSlash_joinSteps entries)
  have some := Path.joinSteps_ne_empty entries
  rw [makeDirectory, bare, if_neg some, if_neg some, lost]

/-- What is under a name in a directory is a directory or not. -/
theorem isDirectory_of_directory {n : String} (part : p ++ [n] <+: names)
    (directory : t.get? (home ++ p) = some .directory) :
    t.isDirectory cwd (Path.joinSteps (front ++ (p ++ [n]))) = true ↔
      t.get? (home ++ (p ++ [n])) = some .directory := by
  rw [isDirectory_eq_true_iff, h.locate_of_directory part directory]
  simp

theorem isDirectory_of_no_directory {n : String} (part : p ++ [n] <+: names)
    (noDirectory : t.get? (home ++ p) ≠ some .directory) :
    t.isDirectory cwd (Path.joinSteps (front ++ (p ++ [n]))) = false := by
  rw [isDirectory, find]
  rcases h.locate_of_no_directory part noDirectory true with ⟨_, lost⟩ | ⟨_, lost⟩ <;> rw [lost]

/-- One more directory is made. -/
theorem madeUpTo_set {made : FileTree} {n : String} (part : p ++ [n] <+: names)
    (above : t.MadeUpTo made home p) (missing : t.get? (home ++ (p ++ [n])) = none) :
    t.MadeUpTo (made.set (home ++ (p ++ [n])) .directory) home (p ++ [n]) := by
  have ne := ne_nil_of_get?_eq_none missing
  refine ⟨?_, ?_, ?_, ?_⟩
  · intro q front
    rcases List.prefix_concat_iff.mp front with rfl | front
    · exact .inl missing
    · exact above.free q front
  · intro q front
    rw [get?_set _ _ _ _ ne]
    split
    · rfl
    · rename_i other
      rcases List.prefix_concat_iff.mp front with rfl | front
      · exact absurd rfl other
      · exact above.inside q front
  · intro q beside
    rw [get?_set_of_ne ne (beside _ List.prefix_rfl)]
    exact above.beside q fun r front => beside r (front.trans (List.prefix_append p [n]))
  · intro q
    rw [isLocked_set _ _ _ _ ne, above.isLocked]
    split
    · rename_i here
      rw [here, h.unlocked _ part]
    · rfl

/-- Where the directory above is missing, it is made first. -/
theorem makeDirectories_of_missing {made : FileTree} {n : String} (part : p ++ [n] <+: names)
    (missing : t.get? (home ++ (p ++ [n])) = none)
    (lost : t.locate cwd (Path.joinSteps (front ++ (p ++ [n]))) false = .error .notFound)
    (above : t.MadeUpTo made home p)
    (done : t.makeDirectories cwd ((front ++ p).map .normal) = ⟨made, .ok ()⟩) :
    t.makeDirectories cwd ((front ++ (p ++ [n])).map .normal) =
      ⟨made.set (home ++ (p ++ [n])) .directory, .ok ()⟩ := by
  have nonempty : (front ++ (p ++ [n])).map Component.normal ≠ [] := by simp
  have parent : Path.parentComponents? ((front ++ (p ++ [n])).map .normal) =
      some ((front ++ p).map .normal) := by
    simp [Path.parentComponents?]
  have missing' : made.get? (home ++ (p ++ [n])) = none := (above.get?_next n).trans missing
  have inside := above.inside p List.prefix_rfl
  have h' := h.of_madeUpTo (List.IsPrefix.trans (List.prefix_append p [n]) part) above
  rw [makeDirectories] at done
  rw [makeDirectories, makeDirectoriesAs, if_neg nonempty,
    Path.ofComponents_normal (h.entries_of_part part) (by simp),
    h.makeDirectory_of_locate_error part lost]
  dsimp only
  split
  · rename_i none
    rw [parent] at none
    cases none
  · rename_i parent' same
    rw [parent] at same
    cases same
    rw [done]
    dsimp only
    rw [h'.makeDirectory_eq part inside, if_pos missing']

/-- Where there is a directory above, that is all there is to it. -/
theorem makeDirectories_of_directory {n : String} (part : p ++ [n] <+: names)
    (directory : t.get? (home ++ p) = some .directory) :
    ((∃ content, t.get? (home ++ (p ++ [n])) = some (.file content)) ∧
      ∃ e, t.makeDirectories cwd ((front ++ (p ++ [n])).map .normal) = ⟨t, .error e⟩) ∨
    ∃ made, t.MadeUpTo made home (p ++ [n]) ∧
      t.makeDirectories cwd ((front ++ (p ++ [n])).map .normal) = ⟨made, .ok ()⟩ := by
  have shorter := List.IsPrefix.trans (List.prefix_append p [n]) part
  have nonempty : (front ++ (p ++ [n])).map Component.normal ≠ [] := by simp
  have whether := h.isDirectory_of_directory part directory
  rw [makeDirectories, makeDirectoriesAs, if_neg nonempty,
    Path.ofComponents_normal (h.entries_of_part part) (by simp), h.makeDirectory_eq part directory]
  rcases there : t.get? (home ++ (p ++ [n])) with _ | (content | _ | target)
  · exact .inr ⟨_, h.madeUpTo_set part (h.madeUpTo shorter directory) there, rfl⟩
  · have noDirectory : t.isDirectory cwd (Path.joinSteps (front ++ (p ++ [n]))) = false := by
      simpa [there] using whether
    exact .inl ⟨⟨content, rfl⟩, .alreadyExists, by simp [noDirectory]⟩
  · exact .inr ⟨t, h.madeUpTo part there, by simp [whether.mpr there]⟩
  · exact absurd there (h.noLink _ part target)

/-- Directories are made at the names, unless there is a file among them. By induction on the
names, since those above the last one are made before it. -/
theorem makeDirectories_cases (part : p <+: names) :
    ((∃ q content, q <+: p ∧ t.get? (home ++ q) = some (.file content)) ∧
      ∃ e, t.makeDirectories cwd ((front ++ p).map .normal) = ⟨t, .error e⟩) ∨
    ∃ made, t.MadeUpTo made home p ∧
      t.makeDirectories cwd ((front ++ p).map .normal) = ⟨made, .ok ()⟩ := by
  induction p using List.reverseRecOn with
  | nil =>
      right
      rw [List.append_nil]
      exact ⟨t, h.madeUpTo part (by simpa using h.start), h.makeDirectories_start⟩
  | append_singleton p n ih =>
      have shorter := List.prefix_append p [n]
      by_cases directory : t.get? (home ++ p) = some .directory
      · exact (h.makeDirectories_of_directory part directory).imp_left
          fun ⟨⟨content, file⟩, failed⟩ => ⟨⟨_, content, List.prefix_rfl, file⟩, failed⟩
      · rcases h.locate_of_no_directory part directory false with
          ⟨free, lost⟩ | ⟨⟨q, content, front, file⟩, lost⟩
        · right
          rcases ih (shorter.trans part) with ⟨⟨q, content, front, file⟩, -⟩ | ⟨made, above, done⟩
          · exact absurd file (free q front content)
          · have missing : t.get? (home ++ (p ++ [n])) = none := by
              by_contra there
              exact directory (h.above p n part there)
            exact ⟨_, h.madeUpTo_set part above missing,
              h.makeDirectories_of_missing part missing lost above done⟩
        · left
          refine ⟨⟨q, content, front.trans shorter, file⟩, .notDirectory, ?_⟩
          rw [makeDirectories, makeDirectoriesAs, if_neg (by simp),
            Path.ofComponents_normal (h.entries_of_part part) (by simp),
            h.makeDirectory_of_locate_error part lost]
          simp [h.isDirectory_of_no_directory part directory]

/-! ## Files -/

/-- The path leads to its last place if there is a directory above it, and nowhere otherwise. -/
theorem locate_eq_ok_iff {n : String} {follow : Bool} (split : names = p ++ [n]) :
    t.locate cwd (Path.joinSteps (front ++ names)) follow = .ok q ↔
      t.get? (home ++ p) = some .directory ∧ q = home ++ names := by
  have part : p ++ [n] <+: names := split ▸ List.prefix_rfl
  rw [split]
  by_cases directory : t.get? (home ++ p) = some .directory
  · simp [h.locate_of_directory part directory, directory, eq_comm]
  · rcases h.locate_of_no_directory part directory follow with ⟨_, lost⟩ | ⟨_, lost⟩ <;>
      simp [lost, directory]

theorem writeFile_effect {content : ByteArray}
    (written : t.writeFile cwd (Path.joinSteps (front ++ names)) content = .ok t') :
    t.Effect home names t' := by
  obtain ⟨p, n, split⟩ := h.exists_concat
  cases located : t.locate cwd (Path.joinSteps (front ++ names)) true with
  | error e => simp [writeFile, located] at written
  | ok q =>
      obtain ⟨directory, rfl⟩ := (h.locate_eq_ok_iff split).mp located
      have noLink := h.noLink names List.prefix_rfl
      obtain ⟨noDirectory, -, rfl⟩ := (writeFile_eq_ok_iff_of_locate located noLink).mp written
      have above := h.madeUpTo (split ▸ List.prefix_append p [n]) directory
      exact .file split above noDirectory (.refl _)

theorem remove_effect (removed : t.remove cwd (Path.joinSteps (front ++ names)) = .ok t') :
    t.Effect home names t' := by
  obtain ⟨p, n, split⟩ := h.exists_concat
  unfold remove at removed
  split at removed
  · cases removed
  · rename_i q located
    obtain ⟨-, rfl⟩ := (h.locate_eq_ok_iff split).mp located
    split at removed
    · cases removed
    · split at removed
      · cases removed
      · cases removed
        exact .gone (.refl _)
    · cases removed
      exact .gone (.refl _)

theorem makeDirectories_effect (part : p <+: names) :
    t.Effect home names (t.makeDirectories cwd ((front ++ p).map .normal)).tree := by
  rcases h.makeDirectories_cases part with ⟨-, e, made⟩ | ⟨t', above, made⟩
  · rw [made]
    exact h.unchanged
  · rw [made]
    exact .directories part above (.refl t')

theorem parentOf_eq {n : String} (split : names = p ++ [n]) :
    parentOf (Path.joinSteps (front ++ names)) = (front ++ p).map .normal := by
  have some : front ++ names ≠ [] := by simp [h.nonempty]
  rw [parentOf, Path.components_joinSteps (h.entries_of_part List.prefix_rfl) some, split]
  simp [Path.parentComponents?]

theorem replaceFile_effect (content : ByteArray) (accepts : Bool) :
    t.Effect home names
      (t.replaceFile cwd (Path.joinSteps (front ++ names)) content accepts).tree := by
  obtain ⟨p, n, split⟩ := h.exists_concat
  have part : p <+: names := split ▸ List.prefix_append p [n]
  have cases := replaceFile_cases t cwd (Path.joinSteps (front ++ names)) content accepts
  rw [h.parentOf_eq split] at cases
  rcases h.makeDirectories_cases part with ⟨⟨q, old, above, file⟩, e, made⟩ | ⟨made, above, made_eq⟩
  · rw [made] at cases
    rcases cases with ⟨_, -, alike⟩ | ⟨-, -, goal, located, -⟩
    · exact .directories List.nil_prefix (h.madeUpTo List.nil_prefix (by simpa using h.start)) alike
    · have directory := ((h.locate_eq_ok_iff split).mp located).1
      simp [h.directory_of_part part directory above] at file
  · rw [made_eq] at cases
    rcases cases with ⟨_, -, alike⟩ | ⟨-, -, goal, located, noDirectory, alike⟩
    · exact .directories part above alike
    · obtain ⟨-, rfl⟩ := ((h.of_madeUpTo part above).locate_eq_ok_iff split).mp located
      have same := above.get?_next n
      rw [← split] at same
      exact .file split above (same ▸ noDirectory) alike

omit h in
/-- Directories on the way to the path do not change what stands there. -/
theorem stands_of_madeUpTo {made : FileTree} {n : String} {s : Standing} (split : names = p ++ [n])
    (above : t.MadeUpTo made home p) (stands : t.Stands home names s) :
    made.Stands home names s := by
  have next : made.get? (home ++ names) = t.get? (home ++ names) := by
    rw [split]
    exact above.get?_next n
  have proper_inside {q : List String} (part : q <+: names) (proper : q ≠ names) : q <+: p :=
    (List.prefix_concat_iff.mp (split ▸ part)).resolve_left (split ▸ proper)
  cases stands with
  | blocked part proper file =>
      rcases above.free _ (proper_inside part proper) with none | there
      · simp [none] at file
      · simp [there] at file
  | absent missing free =>
      refine .absent (next.trans missing) fun q part content file => ?_
      by_cases last : q = names
      · rw [last, next, missing] at file
        cases file
      · rw [above.inside q (proper_inside part last)] at file
        cases file
  | directory there => exact .directory (next.trans there)
  | file there => exact .file (next.trans there)

omit h in
theorem stands_of_alike {s : Standing} (alike : t.Alike t') (stands : t.Stands home names s) :
    t'.Stands home names s := by
  cases stands with
  | blocked part proper file => exact .blocked part proper ((alike.get? _).trans file)
  | absent missing free =>
      refine .absent ((alike.get? _).trans missing) fun q part content => ?_
      rw [alike.get?]
      exact free q part content
  | directory there => exact .directory ((alike.get? _).trans there)
  | file there => exact .file ((alike.get? _).trans there)

/-- With a file in the way, none can be put at the path. -/
theorem takesFile_of_file {s : Standing} (stands : t.Stands home names s) (part : p <+: names)
    (proper : p ≠ names) {content : ByteArray} (file : t.get? (home ++ p) = some (.file content)) :
    s.takesFile = false := by
  cases stands with
  | blocked | directory => rfl
  | absent _ free => exact absurd file (free p part content)
  | file there =>
      have directory := h.directory_above List.prefix_rfl (by simp [there]) part proper
      simp [directory] at file

/-- Under a directory, no more is asked than that there is no directory at the path. -/
theorem takesFile_iff {n : String} {s : Standing} (stands : t.Stands home names s)
    (split : names = p ++ [n]) (above : t.get? (home ++ p) = some .directory) :
    s.takesFile = true ↔ t.get? (home ++ names) ≠ some .directory := by
  cases stands with
  | blocked part proper file =>
      have inside := (List.prefix_concat_iff.mp (split ▸ part)).resolve_left (split ▸ proper)
      have part := split ▸ List.prefix_append p [n]
      simp [h.directory_of_part part above inside] at file
  | absent missing => simp [missing, Standing.takesFile]
  | directory there | file there => simp [there, Standing.takesFile]

/-- Once the directories are made, a file is put at the path unless the device refuses it or a
directory stands there. -/
theorem result_of_madeUpTo {made : FileTree} {n : String} (split : names = p ++ [n])
    (above : t.MadeUpTo made home p)
    (done : t.makeDirectories cwd ((front ++ p).map .normal) = ⟨made, .ok ()⟩)
    (content : ByteArray) (accepts : Bool) :
    (t.replaceFile cwd (Path.joinSteps (front ++ names)) content accepts).result = .ok () ↔
      accepts = true ∧ made.get? (home ++ names) ≠ some .directory := by
  have part : p <+: names := split ▸ List.prefix_append p [n]
  have parent := h.parentOf_eq split
  have h' := h.of_madeUpTo part above
  have inside := above.inside p List.prefix_rfl
  have spelled : folderOf (Path.joinSteps (front ++ names)) = Path.joinSteps (front ++ p) := by
    rw [folderOf, parent]
    by_cases none : front ++ p = []
    · rw [none]
      rfl
    · rw [if_neg (by simpa using none), Path.ofComponents_normal (h.entries_of_part part) none]
  have found : made.find cwd (Path.joinSteps (front ++ p)) = .ok (home ++ p, .directory) := by
    have leads := h'.leads_directory part inside
    rw [find_eq_ok_iff, h'.locate_eq part, walk_eq_ok_iff]
    exact ⟨leads, inside⟩
  have located : made.locate cwd (Path.joinSteps (front ++ names)) false = .ok (home ++ names) :=
    (h'.locate_eq_ok_iff split).mpr ⟨inside, rfl⟩
  exact result_replaceFile (by rw [parent, done]) (by rw [spelled, found]) (h'.unlocked p part)
    located

/-- A file is put at the path unless the device refuses it, a directory stands there or a file is in
the way. -/
theorem result_eq_ok_iff {s : Standing} (stands : t.Stands home names s) (content : ByteArray)
    (accepts : Bool) :
    (t.replaceFile cwd (Path.joinSteps (front ++ names)) content accepts).result = .ok () ↔
      accepts = true ∧ s.takesFile = true := by
  obtain ⟨p, n, split⟩ := h.exists_concat
  have part : p <+: names := split ▸ List.prefix_append p [n]
  rcases h.makeDirectories_cases part with ⟨⟨q, old, above, file⟩, e, failed⟩ | ⟨made, above, done⟩
  · have proper : q ≠ names := by
      rintro rfl
      exact absurd above.length_le (by simp [split])
    have result : (t.replaceFile cwd (Path.joinSteps (front ++ names)) content accepts).result =
        .error (.during
          ("create dir " ++ folderOf (Path.joinSteps (front ++ names))) e) := by
      rw [replaceFile, h.parentOf_eq split, failed]
    simp [result, h.takesFile_of_file stands (above.trans part) proper file]
  · have takes := (h.of_madeUpTo part above).takesFile_iff (stands_of_madeUpTo split above stands)
      split (above.inside p List.prefix_rfl)
    rw [h.result_of_madeUpTo split above done, takes]

/-- What a replacement leaves at the path: the file if it was done, and otherwise what was there. -/
theorem stands_replaceFile {s : Standing} (stands : t.Stands home names s) (content : ByteArray)
    (accepts : Bool) :
    (t.replaceFile cwd (Path.joinSteps (front ++ names)) content accepts).tree.Stands home names
      (if accepts && s.takesFile then .file content else s) := by
  obtain ⟨p, n, split⟩ := h.exists_concat
  have part : p <+: names := split ▸ List.prefix_append p [n]
  have ok_iff := h.result_eq_ok_iff stands content accepts
  have cases := replaceFile_cases t cwd (Path.joinSteps (front ++ names)) content accepts
  rw [h.parentOf_eq split] at cases
  have above : ∃ made, (t.makeDirectories cwd ((front ++ p).map .normal)).tree = made ∧
      made.Stands home names s ∧ made.PlainPath cwd front home names := by
    rcases h.makeDirectories_cases part with ⟨-, e, made⟩ | ⟨made, above, made_eq⟩
    · exact ⟨t, by rw [made], stands, h⟩
    · exact ⟨made, by rw [made_eq], stands_of_madeUpTo split above stands, h.of_madeUpTo part above⟩
  obtain ⟨made, same, stands', h'⟩ := above
  rw [same] at cases
  rcases cases with ⟨e, failed, alike⟩ | ⟨done, -, goal, located, -, alike⟩
  · rw [failed] at ok_iff
    have not : (accepts && s.takesFile) = false := by simpa using ok_iff
    rw [not, if_neg (by simp)]
    exact stands_of_alike alike stands'
  · obtain ⟨-, rfl⟩ := (h'.locate_eq_ok_iff split).mp located
    have takes : (accepts && s.takesFile) = true := by simpa using ok_iff.mp done
    rw [takes, if_pos rfl]
    refine stands_of_alike alike (.file ?_)
    rw [get?_set _ _ _ _ h.place_ne_nil, if_pos rfl]

end PlainPath

/-- In a tree without links and locks, every list of names is a path of plain names. -/
theorem plainPath_of_noLinks (grounded : t.Grounded) (noLinks : t.NoLinks)
    (unlocked : ∀ q, t.isLocked q = false) (start : t.get? cwd = some .directory)
    (entries : ∀ n ∈ names, IsEntryName n) (nonempty : names ≠ []) :
    t.PlainPath cwd [] cwd names where
  entries := entries
  nonempty := nonempty
  leads _ _ := .here
  start := start
  unlocked p _ := unlocked (cwd ++ p)
  noLink p _ := noLinks (cwd ++ p)
  above p n _ some := by
    rw [← List.append_assoc] at some
    exact grounded (cwd ++ p) n some

end FileTree

end ApiInventory.Files
