import ApiInventory.Files.Tree

/-!
# Where walks lead

`Leads` says of a walk that it succeeds and where it ends, one rule for each way a step
can go. It is the same as a walk that returns a place, but an induction over it meets
successes only, so that a fact about paths is proved by looking at one step at a time.

The last entry of a path is looked at only when links are followed: `Leads.followed_of_not_link`
and `Leads.unfollowed_or_link` say what this changes.
-/

namespace ApiInventory.Files

namespace FileTree

/-- A step that goes down to an entry of the directory it starts from. -/
def IsName (step : String) : Prop := step ≠ "." ∧ step ≠ ".."

/-- Where the walk through a link's target starts. -/
def linkBase (here : Place) (target : String) : Place :=
  if Path.isAbsolute target then [] else here

/-- A walk with so many links to follow ends at a place. -/
inductive Leads (t : FileTree) (follow : Bool) : Nat → Place → List String → Place → Prop
  | here {links : Nat} {here : Place} : Leads t follow links here [] here
  | current {links : Nat} {here p : Place} {rest : List String}
      (onward : Leads t follow links here rest p) : Leads t follow links here ("." :: rest) p
  | parent {links : Nat} {here p : Place} {rest : List String}
      (onward : Leads t follow links here.dropLast rest p) :
      Leads t follow links here (".." :: rest) p
  | directory {links : Nat} {here p : Place} {s : String} {rest : List String}
      (name : IsName s) (unlocked : t.isLocked here = false)
      (entry : t.get? (here ++ [s]) = some .directory)
      (onward : Leads t follow links (here ++ [s]) rest p) :
      Leads t follow links here (s :: rest) p
  | last {links : Nat} {here : Place} {s : String}
      (name : IsName s) (unlocked : t.isLocked here = false)
      (noDirectory : t.get? (here ++ [s]) ≠ some .directory)
      (noLink : ∀ target, t.get? (here ++ [s]) ≠ some (.link target)) :
      Leads t follow links here [s] (here ++ [s])
  | unfollowed {links : Nat} {here : Place} {s target : String}
      (name : IsName s) (unlocked : t.isLocked here = false)
      (entry : t.get? (here ++ [s]) = some (.link target)) (stays : follow = false) :
      Leads t follow links here [s] (here ++ [s])
  | followed {links : Nat} {here p : Place} {s target : String} {rest : List String}
      (name : IsName s) (unlocked : t.isLocked here = false)
      (entry : t.get? (here ++ [s]) = some (.link target)) (goes : follow = true ∨ rest ≠ [])
      (nonempty : target ≠ "")
      (onward : Leads t follow links (linkBase here target) (pathSteps target ++ rest) p) :
      Leads t follow (links + 1) here (s :: rest) p

variable {t : FileTree} {follow : Bool} {links : Nat} {here p : Place} {steps : List String}

theorem leads_of_walk (h : t.walk follow links here steps = .ok p) :
    t.Leads follow links here steps p := by
  fun_induction walk t follow links here steps with
  | case1 =>
      cases h
      exact .here
  | case2 links here rest ih => exact .current (ih h)
  | case3 links here rest _ ih => exact .parent (ih h)
  | case4 | case6 | case9 | case11 | case12 => cases h
  | case5 links here s hs hs' unlocked there entry =>
      rw [← Except.ok.inj h]
      change t.get? (here ++ [s]) = _ at entry
      exact .last ⟨hs, hs'⟩ (by simpa using unlocked) (by simp [entry]) (by simp [entry])
  | case7 links here s rest hs hs' unlocked there entry ih =>
      exact .directory ⟨hs, hs'⟩ (by simpa using unlocked) entry (ih h)
  | case8 links here s hs hs' unlocked there content entry =>
      rw [← Except.ok.inj h]
      change t.get? (here ++ [s]) = _ at entry
      exact .last ⟨hs, hs'⟩ (by simpa using unlocked) (by simp [entry]) (by simp [entry])
  | case10 links here s rest hs hs' unlocked there target entry stays =>
      rw [← Except.ok.inj h]
      obtain ⟨rfl, rfl⟩ : rest = [] ∧ follow = false := by simpa using stays
      exact .unfollowed ⟨hs, hs'⟩ (by simpa using unlocked) entry rfl
  | case13 here s rest hs hs' unlocked there target entry goes links nonempty base ih =>
      refine .followed ⟨hs, hs'⟩ (by simpa using unlocked) entry ?_ nonempty (ih h)
      cases follow
      · exact .inr fun last => goes (by simp [last])
      · exact .inl rfl

theorem walk_of_leads (h : t.Leads follow links here steps p) :
    t.walk follow links here steps = .ok p := by
  induction h with
  | here => rw [walk]
  | current _ ih => simpa [walk] using ih
  | parent _ ih => simpa [walk] using ih
  | directory name unlocked entry _ ih =>
      rw [walk, if_neg name.1, if_neg name.2]
      simpa [unlocked, entry] using ih
  | @last links here s name unlocked noDirectory noLink =>
      rw [walk, if_neg name.1, if_neg name.2]
      cases entry : t.get? (here ++ [s]) with
      | none => simp [unlocked, entry]
      | some e =>
          cases e with
          | file => simp [unlocked, entry]
          | directory => exact absurd entry noDirectory
          | link target => exact absurd entry (noLink target)
  | unfollowed name unlocked entry stays =>
      rw [walk, if_neg name.1, if_neg name.2]
      simp [unlocked, entry, stays]
  | @followed links here p s target rest name unlocked entry goes nonempty _ ih =>
      rw [walk, if_neg name.1, if_neg name.2]
      have onward : ¬(decide (rest = []) && !follow) = true := by
        rcases goes with rfl | ne
        · simp
        · simp [ne]
      simpa [unlocked, entry, onward, nonempty, linkBase] using ih

/-- The rules describe exactly the walks that succeed. -/
theorem walk_eq_ok_iff :
    t.walk follow links here steps = .ok p ↔ t.Leads follow links here steps p :=
  ⟨leads_of_walk, walk_of_leads⟩

theorem leads_current_iff :
    t.Leads follow links here ("." :: steps) p ↔ t.Leads follow links here steps p := by
  rw [← walk_eq_ok_iff, ← walk_eq_ok_iff, walk, if_pos rfl]

theorem leads_parent_iff :
    t.Leads follow links here (".." :: steps) p ↔ t.Leads follow links here.dropLast steps p := by
  rw [← walk_eq_ok_iff, ← walk_eq_ok_iff, walk, if_neg (by decide), if_pos rfl]

/-- What a step down that is not the last one comes upon: a directory, or a link that is
followed. -/
theorem Leads.of_name {s : String} (name : IsName s) (more : steps ≠ [])
    (h : t.Leads follow links here (s :: steps) p) :
    t.isLocked here = false ∧
      ((t.get? (here ++ [s]) = some .directory ∧ t.Leads follow links (here ++ [s]) steps p) ∨
        ∃ left target, t.get? (here ++ [s]) = some (.link target) ∧
          t.Leads follow left (linkBase here target) (pathSteps target ++ steps) p) := by
  cases h with
  | current | parent => simp [IsName] at name
  | directory _ unlocked entry onward => exact ⟨unlocked, .inl ⟨entry, onward⟩⟩
  | last | unfollowed => exact absurd rfl more
  | followed _ unlocked entry _ _ onward => exact ⟨unlocked, .inr ⟨_, _, entry, onward⟩⟩

/-- The last step down of a walk that stops at links ends at what it names. -/
theorem Leads.of_last_name {s : String} (name : IsName s)
    (h : t.Leads false links here [s] p) : p = here ++ [s] ∧ t.isLocked here = false := by
  cases h with
  | current | parent => simp [IsName] at name
  | directory _ unlocked _ onward =>
      cases onward
      exact ⟨rfl, unlocked⟩
  | last _ unlocked | unfollowed _ unlocked => exact ⟨rfl, unlocked⟩
  | followed _ _ _ goes => simp at goes

/-- The directory from which a path is walked. -/
def pathBase (cwd : Place) (path : String) : Place := if Path.isAbsolute path then [] else cwd

variable {cwd : Place} {path : String}

theorem locate_eq_ok_iff :
    t.locate cwd path follow = .ok p ↔
      path ≠ "" ∧ t.Leads follow linkLimit (pathBase cwd path) (pathSteps path) p := by
  unfold locate
  split
  · simp_all
  · simp_all [walk_eq_ok_iff, pathBase]

theorem find_eq_ok_iff {e : Entry} :
    t.find cwd path = .ok (p, e) ↔ t.locate cwd path true = .ok p ∧ t.get? p = some e := by
  unfold find
  cases located : t.locate cwd path true with
  | error => simp
  | ok q => cases entry : t.get? q <;> simp <;> grind

theorem isFile_eq_true_iff :
    t.isFile cwd path = true ↔
      ∃ p content, t.locate cwd path true = .ok p ∧ t.get? p = some (.file content) := by
  unfold isFile
  constructor
  · intro h
    split at h
    · rename_i q content found
      exact ⟨q, content, find_eq_ok_iff.mp found⟩
    · cases h
  · rintro ⟨q, content, found⟩
    rw [find_eq_ok_iff.mpr found]

theorem isDirectory_eq_true_iff :
    t.isDirectory cwd path = true ↔
      ∃ p, t.locate cwd path true = .ok p ∧ t.get? p = some .directory := by
  unfold isDirectory
  constructor
  · intro h
    split at h
    · rename_i q found
      exact ⟨q, find_eq_ok_iff.mp found⟩
    · cases h
  · rintro ⟨q, found⟩
    rw [find_eq_ok_iff.mpr found]

theorem read_eq_ok_iff {content : ByteArray} :
    t.read cwd path = .ok content ↔
      ∃ p, t.locate cwd path true = .ok p ∧ t.get? p = some (.file content) ∧
        t.isLocked p = false := by
  unfold read
  constructor
  · intro h
    split at h
    · cases h
    · rename_i q found eq
      obtain ⟨located, entry⟩ := find_eq_ok_iff.mp eq
      split at h
      · cases h
      · rename_i unlocked
        cases h
        exact ⟨q, located, entry, by simpa using unlocked⟩
    · cases h
    · cases h
  · rintro ⟨q, located, entry, unlocked⟩
    rw [find_eq_ok_iff.mpr ⟨located, entry⟩]
    simp [unlocked]

namespace Leads

/-- If what lies at the end is no link, then it does not matter whether links are followed
there. -/
theorem followed_of_not_link (h : t.Leads false links here steps p)
    (noLink : ∀ target, t.get? p ≠ some (.link target)) : t.Leads true links here steps p := by
  induction h with
  | here => exact .here
  | current _ ih => exact .current (ih noLink)
  | parent _ ih => exact .parent (ih noLink)
  | directory name unlocked entry _ ih => exact .directory name unlocked entry (ih noLink)
  | last name unlocked noDirectory => exact .last name unlocked noDirectory noLink
  | unfollowed _ _ entry => exact absurd entry (noLink _)
  | followed name unlocked entry _ nonempty _ ih =>
      exact .followed name unlocked entry (.inl rfl) nonempty (ih noLink)

/-- A walk that follows its last link either meets none there, or would have ended at it. -/
theorem unfollowed_or_link (h : t.Leads true links here steps p) :
    t.Leads false links here steps p ∨
      ∃ q target, t.Leads false links here steps q ∧ t.get? q = some (.link target) := by
  induction h with
  | here => exact .inl .here
  | current _ ih =>
      rcases ih with same | ⟨q, target, leads, entry⟩
      · exact .inl (.current same)
      · exact .inr ⟨q, target, .current leads, entry⟩
  | parent _ ih =>
      rcases ih with same | ⟨q, target, leads, entry⟩
      · exact .inl (.parent same)
      · exact .inr ⟨q, target, .parent leads, entry⟩
  | directory name unlocked entry _ ih =>
      rcases ih with same | ⟨q, target, leads, link⟩
      · exact .inl (.directory name unlocked entry same)
      · exact .inr ⟨q, target, .directory name unlocked entry leads, link⟩
  | last name unlocked noDirectory noLink =>
      exact .inl (.last name unlocked noDirectory noLink)
  | unfollowed _ _ _ stays => cases stays
  | @followed links here p s target rest name unlocked entry _ nonempty _ ih =>
      by_cases final : rest = []
      · subst final
        exact .inr ⟨_, target, .unfollowed name unlocked entry rfl, entry⟩
      · rcases ih with same | ⟨q, target', leads, link⟩
        · exact .inl (.followed name unlocked entry (.inr final) nonempty same)
        · exact .inr ⟨q, target', .followed name unlocked entry (.inr final) nonempty leads, link⟩

/-- A walk that comes by a directory goes on from there. -/
theorem walk_append (h : t.Leads true links here steps p)
    (directory : t.get? p = some .directory) {more : List String} (some : more ≠ []) :
    ∃ left, t.walk follow links here (steps ++ more) = t.walk follow left p more := by
  induction h with
  | @here links => exact ⟨links, rfl⟩
  | current _ ih =>
      obtain ⟨left, same⟩ := ih directory
      exact ⟨left, by rw [List.cons_append, walk, if_pos rfl, same]⟩
  | parent _ ih =>
      obtain ⟨left, same⟩ := ih directory
      exact ⟨left, by rw [List.cons_append, walk, if_neg (by decide), if_pos rfl, same]⟩
  | directory name unlocked entry _ ih =>
      obtain ⟨left, same⟩ := ih directory
      refine ⟨left, ?_⟩
      rw [List.cons_append, walk, if_neg name.1, if_neg name.2]
      simpa [unlocked, entry] using same
  | last _ _ noDirectory => exact absurd directory noDirectory
  | unfollowed _ _ _ stays => cases stays
  | followed name unlocked entry _ nonempty _ ih =>
      obtain ⟨left, same⟩ := ih directory
      refine ⟨left, ?_⟩
      rw [List.append_assoc] at same
      rw [List.cons_append, walk, if_neg name.1, if_neg name.2]
      simpa [unlocked, entry, some, nonempty, linkBase] using same

end Leads

theorem walk_name_of_locked {s : String} (name : IsName s) (locked : t.isLocked here = true) :
    t.walk follow links here [s] = .error .locked := by
  rw [walk, if_neg name.1, if_neg name.2, if_pos locked]

end FileTree

end ApiInventory.Files
