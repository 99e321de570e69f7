import Mathlib.Data.Set.Card
import ApiInventory.Proofs.Symbols.NameMap
import ApiInventory.Source.Declarations
import ApiInventory.Symbols.Json

/-!
# Histories of a table

A table comes about step by step: a symbol is put in, another table is merged in, or all of it is
replaced. What is put in, merged in or put in its place may be at hand or be read first, and where
it cannot be read, the step is refused.

What a table binds in the end depends on the steps since it was last replaced (`recent`), and of
these on the first one that brings the name (`get?_history`): a replacement brings what it has, and
what comes after it only fills what is free. The induction is on the history and carries the table
that is there already (`get?_foldl_perform`).
-/

namespace ApiInventory

namespace SymbolTable

/-- What is done to a table, once it is read. -/
inductive Change where
  | insert (name : String) (signature : Signature)
  | merge (other : SymbolTable)
  | replace (other : SymbolTable)

/-- A step in the history of a table. -/
inductive Step where
  | insert (name : String) (signature : Signature)
  | insertJson (name : String) (value : Json)
  | merge (other : SymbolTable)
  | mergeJson (text : String)
  | mergeSource (source : String)
  | replaceJson (text : String)

/-- What the caller is told. -/
inductive Answer where
  | inserted (fresh : Bool)
  | merged (size : Nat)
  | replaced (size : Nat)
  | refused
deriving DecidableEq

/-- The change that a step makes, if what it is given can be read. -/
def Step.change? : Step → Option Change
  | .insert name signature => some (.insert name signature)
  | .insertJson name value => (Signature.ofJson? value).map (.insert name)
  | .merge other => some (.merge other)
  | .mergeJson text => (parse? text).map .merge
  | .mergeSource source => (Source.extract source).map .merge
  | .replaceJson text => (parse? text).map .replace

def Change.perform (t : SymbolTable) : Change → SymbolTable × Answer
  | .insert name signature =>
    let (t, fresh) := t.insertIfNew name signature
    (t, .inserted fresh)
  | .merge other => (t.mergeNew other, .merged (t.mergeNew other).size)
  | .replace other => (other, .replaced other.size)

def Step.perform (t : SymbolTable) (step : Step) : SymbolTable × Answer :=
  match step.change? with
  | some change => change.perform t
  | none => (t, .refused)

/-- The table after steps, the first of them on an empty one. -/
def history (steps : List Step) : SymbolTable :=
  steps.foldl (fun t step => (step.perform t).1) ∅

/-! ## What a step brings -/

/-- What a change has to say about a name. -/
def Change.binding? (name : String) : Change → Option Signature
  | .insert other signature => if name = other then some signature else none
  | .merge other => other.get? name
  | .replace other => other.get? name

def Change.replaces : Change → Bool
  | .insert _ _ => false
  | .merge _ => false
  | .replace _ => true

/-- A step that is not refused carries a signature for a name: the one that it puts in, or the one
of the table that it merges in or puts in place of what was there. -/
def Step.Carries (step : Step) (name : String) (signature : Signature) : Prop :=
  ∃ change, step.change? = some change ∧ change.binding? name = some signature

/-- A step replaces the table, and is not refused. -/
def Step.replaces (step : Step) : Bool := step.change?.any Change.replaces

def Step.binding? (name : String) (step : Step) : Option Signature :=
  step.change?.bind (Change.binding? name)

/-- The steps from the last one on that replaces the table, or all of them. -/
def recent : List Step → List Step
  | [] => []
  | step :: later => if later.any Step.replaces then recent later else step :: later

/-- The first of the steps that carries anything for the name carries this signature. -/
def FirstCarries (steps : List Step) (name : String) (signature : Signature) : Prop :=
  ∃ before step after, steps = before ++ step :: after ∧ step.Carries name signature ∧
    ∀ earlier ∈ before, ∀ other, ¬earlier.Carries name other

variable {step : Step} {steps : List Step} {name : String} {signature : Signature}

theorem Step.binding?_eq_some_iff : step.binding? name = some signature ↔
    step.Carries name signature :=
  Option.bind_eq_some_iff

theorem Step.binding?_eq_none_iff : step.binding? name = none ↔
    ∀ other, ¬step.Carries name other := by
  simp only [Option.eq_none_iff_forall_ne_some, ne_eq, Step.binding?_eq_some_iff]

theorem findSome?_binding?_iff : steps.findSome? (Step.binding? name) = some signature ↔
    FirstCarries steps name signature := by
  simp only [List.findSome?_eq_some_iff, Step.binding?_eq_some_iff, Step.binding?_eq_none_iff,
    FirstCarries]

/-! ## What steps leave -/

theorem Change.get?_perform (change : Change) (t : SymbolTable) (name : String) :
    (change.perform t).1.get? name =
      if change.replaces then change.binding? name else (t.get? name).or (change.binding? name) := by
  cases change with
  | insert other signature =>
      change (t.insertNew other signature).get? name = _
      rw [NameMap.get?_insertNew, replaces, if_neg Bool.false_ne_true, binding?]
      by_cases here : name = other
      · subst here
        rw [if_pos rfl, if_pos rfl]
        cases t.get? name <;> rfl
      · rw [if_neg here, if_neg here, Option.or_none]
  | merge other => exact NameMap.get?_mergeNew t other name
  | replace other => rfl

/-- A step that replaces the table leaves what it carries, and any other fills what is free. -/
theorem Step.get?_perform (step : Step) (t : SymbolTable) (name : String) :
    (step.perform t).1.get? name =
      if step.replaces then step.binding? name else (t.get? name).or (step.binding? name) := by
  rcases read : step.change? with _ | change
  · simp [perform, replaces, binding?, read]
  · simpa [perform, replaces, binding?, read] using change.get?_perform t name

theorem recent_eq_self (kept : steps.any Step.replaces = false) : recent steps = steps := by
  cases steps with
  | nil => rfl
  | cons step later =>
      rw [List.any_cons, Bool.or_eq_false_iff] at kept
      rw [recent, if_neg (by simp [kept.2])]

/-- What was there counts unless it has been replaced, and then the first step that carries the
name. -/
theorem get?_foldl_perform (steps : List Step) (t : SymbolTable) (name : String) :
    (steps.foldl (fun t step => (step.perform t).1) t).get? name =
      if steps.any Step.replaces then (recent steps).findSome? (Step.binding? name)
      else (t.get? name).or ((recent steps).findSome? (Step.binding? name)) := by
  induction steps generalizing t with
  | nil => simp [recent]
  | cons step later ih =>
      rw [List.foldl_cons, ih, List.any_cons, recent]
      by_cases again : later.any Step.replaces = true
      · simp [again]
      · rw [Bool.not_eq_true] at again
        simp only [again, Bool.or_false, Bool.false_eq_true, if_false, recent_eq_self again,
          List.findSome?_cons, Step.get?_perform]
        cases step.replaces <;> cases t.get? name <;> cases step.binding? name <;> simp

theorem get?_history (steps : List Step) (name : String) :
    (history steps).get? name = (recent steps).findSome? (Step.binding? name) := by
  rw [history, get?_foldl_perform, NameMap.get?_empty, Option.none_or, ite_self]

theorem get?_history_iff : (history steps).get? name = some signature ↔
    FirstCarries (recent steps) name signature := by
  rw [get?_history, findSome?_binding?_iff]

theorem contains_history_iff : (history steps).contains name = true ↔
    ∃ step ∈ recent steps, ∃ signature, step.Carries name signature := by
  rw [NameMap.contains_eq, get?_history, List.findSome?_isSome_iff]
  simp only [Option.isSome_iff_exists, Step.binding?_eq_some_iff]

/-- What is recent is the end of a history: no step in it but the first replaces the table, and that
one does if anything went before. -/
theorem recent_spec (steps : List Step) :
    ∃ past, steps = past ++ recent steps ∧
      (∀ step ∈ (recent steps).tail, step.replaces = false) ∧
      (past ≠ [] → ∃ step later, recent steps = step :: later ∧ step.replaces = true) := by
  induction steps with
  | nil => exact ⟨[], rfl, by simp [recent], fun some => absurd rfl some⟩
  | cons step later ih =>
      obtain ⟨past, split, last, first⟩ := ih
      rw [recent]
      by_cases again : later.any Step.replaces = true
      · rw [if_pos again]
        refine ⟨step :: past, congrArg (step :: ·) split, last, fun _ => ?_⟩
        rcases past with _ | ⟨early, past⟩
        · -- all of what comes later is recent, and something in it replaces the table
          rw [List.nil_append] at split
          rw [← split] at last ⊢
          obtain ⟨replacing, member, replaces⟩ := List.any_eq_true.mp again
          rcases later with _ | ⟨head, tail⟩
          · cases member
          · rcases List.mem_cons.mp member with rfl | behind
            · exact ⟨replacing, tail, rfl, replaces⟩
            · rw [last replacing behind] at replaces
              cases replaces
        · exact first (List.cons_ne_nil early past)
      · rw [if_neg again]
        refine ⟨[], rfl, fun behind member => ?_, fun some => absurd rfl some⟩
        by_contra replaces
        rw [Bool.not_eq_false] at replaces
        exact again (List.any_eq_true.mpr ⟨behind, member, replaces⟩)

/-! ## What steps answer -/

/-- What cannot be read is refused, and nothing else is. -/
theorem Step.refused_iff {t : SymbolTable} : (step.perform t).2 = .refused ↔
    step.change? = none := by
  rcases read : step.change? with _ | (_ | _ | _) <;> simp [perform, Change.perform, read]

theorem Step.perform_of_refused {t : SymbolTable} (refused : (step.perform t).2 = .refused) :
    (step.perform t).1 = t := by
  rw [perform, refused_iff.mp refused]

/-- Putting in a symbol succeeds where the name is free. -/
theorem Step.inserted_iff {t : SymbolTable} (read : step.change? = some (.insert name signature)) :
    (step.perform t).2 = .inserted true ↔ t.contains name = false := by
  rw [perform, read]
  simp [Change.perform]

/-- **Histories of a table.** After any steps a name has what the first step carries for it that
carries anything, among those since the table was last replaced (the replacement included), and it
is free if none does. The size is the number of names that are bound. A symbol that is put in is
told to be new exactly if its name is free, a step is refused exactly if what it is given cannot be
read, and it then changes nothing. Merging is associative and idempotent with the empty table as its
unit; of any tables that are merged, whatever the groups, each name has what the first has that
binds it; and it makes no difference which of two comes first exactly if they agree on the names
that they share. -/
theorem table_histories :
    (∀ steps : List Step,
      (∃ past, steps = past ++ recent steps ∧
        (∀ step ∈ (recent steps).tail, step.replaces = false) ∧
        (past ≠ [] → ∃ step later, recent steps = step :: later ∧ step.replaces = true)) ∧
      (∀ name signature, (history steps).get? name = some signature ↔
        FirstCarries (recent steps) name signature) ∧
      (∀ name, (history steps).contains name = true ↔
        ∃ step ∈ recent steps, ∃ signature, step.Carries name signature) ∧
      (history steps).size = Set.ncard {name | (history steps).contains name = true}) ∧
    (∀ (t : SymbolTable) (step : Step),
      (∀ name signature, step.change? = some (.insert name signature) →
        ((step.perform t).2 = .inserted true ↔ t.contains name = false)) ∧
      ((step.perform t).2 = .refused ↔ step.change? = none) ∧
      ((step.perform t).2 = .refused → (step.perform t).1 = t)) ∧
    (∀ a b c : SymbolTable, (a.mergeNew b).mergeNew c = a.mergeNew (b.mergeNew c)) ∧
    (∀ t : SymbolTable, t.mergeNew ∅ = t ∧ NameMap.mergeNew ∅ t = t ∧ t.mergeNew t = t) ∧
    (∀ (ts : List SymbolTable) (name : String),
      (ts.foldl NameMap.mergeNew ∅).get? name = ts.findSome? (·.get? name)) ∧
    (∀ groups : List (List SymbolTable), groups.flatten.foldl NameMap.mergeNew ∅ =
      (groups.map (·.foldl NameMap.mergeNew ∅)).foldl NameMap.mergeNew ∅) ∧
    ∀ a b : SymbolTable, a.mergeNew b = b.mergeNew a ↔
      ∀ name x y, a.get? name = some x → b.get? name = some y → x = y := by
  refine ⟨fun steps => ?_, fun t step => ?_, NameMap.mergeNew_assoc, fun t => ?_,
    NameMap.get?_mergeAll, NameMap.mergeAll_flatten, fun a b => NameMap.mergeNew_comm_iff⟩
  · exact ⟨recent_spec steps, fun name signature => get?_history_iff,
      fun name => contains_history_iff, NameMap.size_eq_ncard _⟩
  · exact ⟨fun name signature => Step.inserted_iff, Step.refused_iff, Step.perform_of_refused⟩
  · exact ⟨t.mergeNew_empty, t.empty_mergeNew, t.mergeNew_self⟩

/-- A variable put into an empty table, and something that is no signature. -/
theorem table_histories_of_first_step :
    (Step.insertJson "a" .null).change? = some (.insert "a" .variable) ∧
      ((Step.insertJson "a" .null).perform ∅).2 = .inserted true ∧
      ((Step.insertJson "a" (.bool true)).perform ∅).2 = .refused ∧
      ((Step.insertJson "a" (.bool true)).perform ∅).1 = ∅ := by
  have read : (Step.insertJson "a" .null).change? = some (.insert "a" .variable) := rfl
  have free : NameMap.contains (∅ : SymbolTable) "a" = false := rfl
  have refused : ((Step.insertJson "a" (.bool true)).perform ∅).2 = .refused := rfl
  have fresh := table_histories.2.1 ∅ (.insertJson "a" .null)
  have kept := table_histories.2.1 ∅ (.insertJson "a" (.bool true))
  exact ⟨read, (fresh.1 "a" .variable read).mpr free, refused, kept.2.2 refused⟩

end SymbolTable

end ApiInventory
