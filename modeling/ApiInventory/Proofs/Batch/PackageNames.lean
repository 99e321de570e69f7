import ApiInventory.Batch.PackageList
import ApiInventory.Proofs.Batch.Turns
import ApiInventory.Proofs.Text.Pieces
import ApiInventory.Proofs.Text.Trimming
import Mathlib.Data.List.Infix

/-!
# The names in a list

A checkpoint is a position in a list, so a list has to keep its positions when its text is edited
without a change of names. Two texts list the same names exactly if they can be made from each other
by blank lines that come or go and by white space that comes or goes around the other lines
(`packageNames_eq_iff`). The end of a line with a carriage return is such white space.

Lines that are put together list what each part lists (`packageNames_append`), so that new names
behind the old ones leave those where they are. A run over the longer list does at first what it
does over the shorter one (`turns_prefix`).
-/

namespace ApiInventory.Batch

open Text (IsTight isBlank lines linesOf pieces trim withReturns withoutReturn)

/-- A name as it can stand in a list. -/
structure IsListed (name : String) : Prop where
  nonempty : name ≠ ""
  tight : IsTight name.toList
  single : '\n' ∉ name.toList

/-- Two lists of lines are the same up to lines of white space alone and to white space around the
others. -/
inductive Respaced : List (List Char) → List (List Char) → Prop
  | nothing : Respaced [] []
  | dropped {line : List Char} {ls ls' : List (List Char)} (blank : ∀ c ∈ line, isBlank c = true)
      (rest : Respaced ls ls') : Respaced (line :: ls) ls'
  | added {line : List Char} {ls ls' : List (List Char)} (blank : ∀ c ∈ line, isBlank c = true)
      (rest : Respaced ls ls') : Respaced ls (line :: ls')
  | line {before after before' after' text : List Char} {ls ls' : List (List Char)}
      (blank : ∀ c ∈ before ++ after, isBlank c = true)
      (blank' : ∀ c ∈ before' ++ after', isBlank c = true) (rest : Respaced ls ls') :
      Respaced ((before ++ text ++ after) :: ls) ((before' ++ text ++ after') :: ls')

/-! ## Names of lines -/

/-- The names in lines, in order. -/
def namesOf (ls : List (List Char)) : List String :=
  ((ls.map trim).filter (· ≠ [])).map String.ofList

theorem packageNames_eq_pieces (text : String) :
    packageNames text = namesOf (pieces '\n' text.toList) := rfl

theorem namesOf_append (ls ls' : List (List Char)) :
    namesOf (ls ++ ls') = namesOf ls ++ namesOf ls' := by
  simp only [namesOf, List.map_append, List.filter_append]

variable {line : List Char} {ls ls' : List (List Char)} {name : String}

theorem namesOf_cons_of_blank (blank : ∀ c ∈ line, isBlank c = true) :
    namesOf (line :: ls) = namesOf ls := by
  simp [namesOf, Text.trim_of_blank blank]

theorem namesOf_cons_of_ne_nil (some : trim line ≠ []) :
    namesOf (line :: ls) = String.ofList (trim line) :: namesOf ls := by
  simp [namesOf, some]

theorem namesOf_cons_congr {line' : List Char} (same : trim line = trim line')
    (rest : namesOf ls = namesOf ls') : namesOf (line :: ls) = namesOf (line' :: ls') := by
  by_cases blank : trim line = []
  · rw [namesOf_cons_of_blank (Text.trim_eq_nil_iff.mp blank),
      namesOf_cons_of_blank (Text.trim_eq_nil_iff.mp (same ▸ blank)), rest]
  · rw [namesOf_cons_of_ne_nil blank, namesOf_cons_of_ne_nil (same ▸ blank), same, rest]

theorem Respaced.namesOf_eq (respaced : Respaced ls ls') : namesOf ls = namesOf ls' := by
  induction respaced with
  | nothing => rfl
  | dropped blank _ ih => rw [namesOf_cons_of_blank blank, ih]
  | added blank _ ih => rw [namesOf_cons_of_blank blank, ih]
  | line blank blank' _ ih =>
      exact namesOf_cons_congr
        ((Text.trim_around blank _).trans (Text.trim_around blank' _).symm) ih

/-- Lines that have the same name are that name, each with white space of its own. -/
theorem Respaced.of_trim_eq {line' : List Char} (same : trim line = trim line')
    (rest : Respaced ls ls') : Respaced (line :: ls) (line' :: ls') := by
  obtain ⟨before, after, split, blank⟩ := Text.exists_trim line
  obtain ⟨before', after', split', blank'⟩ := Text.exists_trim line'
  rw [split, split', ← same]
  exact .line blank blank' rest

/-- The induction is on the lines of the first list, and inside it on those of the second, where the
line with the first name is looked for. -/
theorem respaced_of_namesOf_eq (same : namesOf ls = namesOf ls') : Respaced ls ls' := by
  induction ls generalizing ls' with
  | nil =>
      induction ls' with
      | nil => exact .nothing
      | cons line' ls' ih' =>
          by_cases blank' : trim line' = []
          · rw [namesOf_cons_of_blank (Text.trim_eq_nil_iff.mp blank')] at same
            exact .added (Text.trim_eq_nil_iff.mp blank') (ih' same)
          · rw [namesOf_cons_of_ne_nil blank'] at same
            cases same
  | cons line ls ih =>
      by_cases blank : trim line = []
      · rw [namesOf_cons_of_blank (Text.trim_eq_nil_iff.mp blank)] at same
        exact .dropped (Text.trim_eq_nil_iff.mp blank) (ih same)
      · induction ls' with
        | nil =>
            rw [namesOf_cons_of_ne_nil blank] at same
            cases same
        | cons line' ls' ih' =>
            by_cases blank' : trim line' = []
            · rw [namesOf_cons_of_blank (Text.trim_eq_nil_iff.mp blank')] at same
              exact .added (Text.trim_eq_nil_iff.mp blank') (ih' same)
            · rw [namesOf_cons_of_ne_nil blank, namesOf_cons_of_ne_nil blank'] at same
              obtain ⟨first, rest⟩ := List.cons.inj same
              exact .of_trim_eq (String.ofList_injective first) (ih rest)

theorem namesOf_eq_iff : namesOf ls = namesOf ls' ↔ Respaced ls ls' :=
  ⟨respaced_of_namesOf_eq, Respaced.namesOf_eq⟩

/-- Names are the names of the lines that they stand in alone. -/
theorem namesOf_map_toList {names : List String} (listed : ∀ name ∈ names, IsListed name) :
    namesOf (names.map String.toList) = names := by
  induction names with
  | nil => rfl
  | cons name names ih =>
      obtain ⟨first, rest⟩ := List.forall_mem_cons.mp listed
      have kept : trim name.toList = name.toList := Text.trim_of_tight first.tight
      have some : trim name.toList ≠ [] := by
        rw [kept]
        simpa using first.nonempty
      rw [List.map_cons, namesOf_cons_of_ne_nil some, kept, String.ofList_toList, ih rest]

theorem isListed_of_mem_namesOf (single : ∀ line ∈ ls, '\n' ∉ line) (member : name ∈ namesOf ls) :
    IsListed name := by
  simp only [namesOf, List.mem_map, List.mem_filter, decide_eq_true_eq] at member
  obtain ⟨_, ⟨⟨line, inside, rfl⟩, some⟩, rfl⟩ := member
  refine ⟨by simpa using some, ?_, ?_⟩
  · rw [String.toList_ofList]
    exact Text.isTight_trim line
  · rw [String.toList_ofList]
    exact fun newline => single line inside (Text.mem_of_mem_trim newline)

/-! ## Lines of a text -/

theorem trim_append_return (line : List Char) : trim (line ++ ['\r']) = trim line := by
  have blank : ∀ c ∈ ([] : List Char) ++ ['\r'], isBlank c = true :=
    List.forall_mem_singleton.mpr rfl
  exact Text.trim_around blank line

theorem trim_withoutReturn (line : List Char) : trim (withoutReturn line) = trim line := by
  unfold withoutReturn
  split
  · rename_i last
    obtain ⟨front, rfl⟩ := List.getLast?_eq_some_iff.mp last
    rw [List.dropLast_concat]
    exact (trim_append_return front).symm
  · rfl

theorem namesOf_linesOf (ps : List (List Char)) : namesOf (linesOf ps) = namesOf ps := by
  fun_induction linesOf ps with
  | case1 => rfl
  | case2 => rfl
  | case3 last some => rfl
  | case4 line more several ih => exact namesOf_cons_congr (trim_withoutReturn line) ih

/-- The names of a list are those of its lines. -/
theorem packageNames_eq_lines (text : String) :
    packageNames text = namesOf (lines text.toList) := by
  rw [packageNames_eq_pieces, lines, namesOf_linesOf]

theorem packageNames_eq_iff {a b : String} :
    packageNames a = packageNames b ↔ Respaced (lines a.toList) (lines b.toList) := by
  rw [packageNames_eq_lines, packageNames_eq_lines, namesOf_eq_iff]

theorem isListed_of_mem {text : String} (member : name ∈ packageNames text) : IsListed name :=
  isListed_of_mem_namesOf (fun _ => Text.not_mem_of_mem_pieces) member

theorem packageNames_append (a b : String) :
    packageNames (a ++ "\n" ++ b) = packageNames a ++ packageNames b := by
  have split : (a ++ "\n" ++ b).toList = a.toList ++ '\n' :: b.toList := by simp
  rw [packageNames_eq_pieces, split, Text.pieces_append, namesOf_append]
  rfl

/-- Names that are written one on each line are read back. -/
theorem packageNames_intercalate {names : List String} (listed : ∀ name ∈ names, IsListed name) :
    packageNames ("\n".intercalate names) = names := by
  have joined : ("\n".intercalate names).toList = Text.join '\n' (names.map String.toList) := by
    rw [String.toList_intercalate, Text.join_eq_intercalate]
    rfl
  by_cases some : names = []
  · subst some
    rfl
  · have clean : ∀ p ∈ names.map String.toList, '\n' ∉ p := by
      intro p member
      obtain ⟨name, inside, rfl⟩ := List.mem_map.mp member
      exact (listed name inside).single
    rw [packageNames_eq_pieces, joined, Text.pieces_join (by simpa using some) clean,
      namesOf_map_toList listed]

theorem namesOf_withReturns (ps : List (List Char)) (single : ∀ p ∈ ps, '\n' ∉ p) :
    namesOf (pieces '\n' (withReturns (Text.join '\n' ps))) = namesOf ps := by
  induction ps with
  | nil => rfl
  | cons p ps ih =>
      obtain ⟨first, rest⟩ := List.forall_mem_cons.mp single
      by_cases more : ps = []
      · subst more
        rw [Text.join, Text.withReturns_of_not_mem first, Text.pieces_of_not_mem first]
      · rw [Text.join_cons '\n' p more, Text.pieces_withReturns p _ first]
        exact namesOf_cons_congr (trim_append_return p) (ih rest)

/-- It does not matter which of the two ends the lines of a list have. -/
theorem packageNames_withReturns (text : String) :
    packageNames (String.ofList (withReturns text.toList)) = packageNames text := by
  have whole := namesOf_withReturns (pieces '\n' text.toList) fun _ => Text.not_mem_of_mem_pieces
  rw [Text.join_pieces] at whole
  rw [packageNames_eq_pieces, String.toList_ofList, whole, packageNames_eq_pieces]

/-! ## Longer lists -/

/-- A list that ends with its last line goes on with what is put behind it. -/
theorem packageNames_of_ended {old : String} (ended : old.toList.getLast? = some '\n')
    (added : String) : packageNames (old ++ added) = packageNames old ++ packageNames added := by
  obtain ⟨front, split⟩ := List.getLast?_eq_some_iff.mp ended
  have whole : old = String.ofList front ++ "\n" := String.toList_injective (by simp [split])
  have nothing : packageNames "" = [] := rfl
  have alone := packageNames_append (String.ofList front) ""
  rw [String.append_empty, ← whole, nothing, List.append_nil] at alone
  rw [alone, ← packageNames_append, ← whole]

variable {σ : Type}

/-- Items that are put behind others make no difference to these. -/
theorem turnsOf_append (s : Services σ) (d : Desk) (deadline : Nat)
    (items more : List (String × Nat)) (w : Progress σ) :
    turnsOf s d deadline items w <+: turnsOf s d deadline (items ++ more) w := by
  induction items generalizing w with
  | nil => exact List.nil_prefix
  | cons item rest ih =>
      obtain ⟨package, position⟩ := item
      by_cases late : deadline ≤ (s.now w.outside).1
      · simp only [turnsOf, List.cons_append, if_pos late]
        exact List.prefix_rfl
      · simp only [turnsOf, List.cons_append, if_neg late, List.prefix_cons_inj]
        split
        · exact List.prefix_rfl
        · exact ih _

theorem window_append (names added : List String) (start batchSize : Nat) :
    window names start batchSize <+: window (names ++ added) start batchSize := by
  have le : windowEnd names.length start batchSize ≤
      windowEnd (names ++ added).length start batchSize := by
    unfold windowEnd
    rw [List.length_append]
    omega
  have inside : windowEnd names.length start batchSize ≤ names.zipIdx.length := by
    rw [List.length_zipIdx]
    exact Nat.min_le_right ..
  have front : names.zipIdx.take (windowEnd names.length start batchSize) =
      (names ++ added).zipIdx.take (windowEnd names.length start batchSize) := by
    rw [List.zipIdx_append, List.take_append_of_le_length inside]
  rw [window, window, front]
  exact List.IsPrefix.drop (List.take_prefix_take_left le) start

/-- A run over a list that has become longer attempts what it attempts of the old one, and first. -/
theorem turns_prefix (s : Services σ) (d : Desk) (limits : Limits) (names added : List String)
    (w : Progress σ) : turns s d limits names w <+: turns s d limits (names ++ added) w := by
  obtain ⟨more, split⟩ := window_append names added (startPosition d w).1 limits.batchSize
  unfold turns
  dsimp only
  rw [← split]
  exact turnsOf_append s d limits.deadline _ more _

/-- **A list keeps its names and their positions.** Each name of a list has something in it, no
white space at its ends and no line feed. Names that are written one on each line are read back, and
texts with a line feed between list the names of the one and then those of the other. Two texts list
the same exactly if white space alone makes the difference, and so the ends of lines may have
carriage returns or not. A list that ends with a line feed can be made longer: each name keeps its
position, and a run attempts what it would have attempted of the old list, and first. -/
theorem package_names :
    (∀ text, ∀ name ∈ packageNames text, IsListed name) ∧
    (∀ text, packageNames ("\n".intercalate (packageNames text)) = packageNames text) ∧
    (∀ a b, packageNames (a ++ "\n" ++ b) = packageNames a ++ packageNames b) ∧
    (∀ a b, packageNames a = packageNames b ↔ Respaced (lines a.toList) (lines b.toList)) ∧
    (∀ text, packageNames (String.ofList (withReturns text.toList)) = packageNames text) ∧
    ∀ old : String, old.toList.getLast? = some '\n' → ∀ added,
      (∀ (i : Nat) (name : String), (packageNames old)[i]? = some name →
        (packageNames (old ++ added))[i]? = some name) ∧
      ∀ {σ : Type} (s : Services σ) (d : Desk) (limits : Limits) (w : Progress σ),
        turns s d limits (packageNames old) w <+:
          turns s d limits (packageNames (old ++ added)) w := by
  refine ⟨fun text name => isListed_of_mem, fun text => ?_, packageNames_append,
    fun a b => packageNames_eq_iff, packageNames_withReturns, fun old ended added => ?_⟩
  · exact packageNames_intercalate fun name => isListed_of_mem
  · rw [packageNames_of_ended ended]
    constructor
    · intro i name there
      have inside := (List.getElem?_eq_some_iff.mp there).1
      rw [List.getElem?_append_left inside, there]
    · intro σ s d limits w
      exact turns_prefix s d limits _ _ w

/-- Two lines, and one more that is written in another way. -/
theorem package_names_of_added_line :
    (packageNames "a\n \n\tb\n")[1]? = some "b" ∧
      (packageNames ("a\n \n\tb\n" ++ "c \r\n"))[1]? = some "b" := by
  have second : (packageNames "a\n \n\tb\n")[1]? = some "b" := by decide
  have longer := package_names.2.2.2.2.2 "a\n \n\tb\n" (by decide) "c \r\n"
  exact ⟨second, longer.1 1 "b" second⟩

end ApiInventory.Batch
