import ApiInventory.Proofs.Text.Decimal
import ApiInventory.Settings

/-!
# Settings of an environment

A variable accepts some texts, each for one value (`Accepts`): a number is plain digits, perhaps
after a plus sign, and large enough for the variable; an address is any text that is not blank, and
is taken without the white space around it. `Configures` says of settings and warnings that they are
those of an environment: each variable by its own text, and a warning, in the order of the
variables, for each text that is not accepted.

The five variables are looked up one after the other, with two functions and a least number of their
own. All of it is one reading of a variable (`given?`, `refused?`), from which the law follows
(`configures_ofEnvironment`).
-/

namespace ApiInventory.Settings

namespace Variable

/-- The variables, in the order in which they are looked up. -/
def all : List Variable := [batchSize, timeLimit, resolveTimeout, downloadTimeout, indexUrl]

/-- A number has to be as large as this. -/
def least : Variable → Nat
  | batchSize | resolveTimeout => 1
  | timeLimit | downloadTimeout | indexUrl => 0

theorem name_injective : Function.Injective name := by
  intro v w same
  cases v <;> cases w <;> first | rfl | exact absurd same (by decide)

end Variable

/-- What a variable can be set to. -/
inductive Value where
  | number (n : Nat)
  | text (text : String)
deriving DecidableEq, Repr

/-- The setting that a variable is for. -/
def get (s : Settings) : Variable → Value
  | .batchSize => .number s.batchSize
  | .timeLimit => .number s.timeLimitSecs
  | .resolveTimeout => .number s.resolveTimeoutSecs
  | .downloadTimeout => .number s.downloadTimeoutSecs
  | .indexUrl => .text s.indexUrl

/-- A variable takes a value from a text. -/
inductive Accepts : Variable → String → Value → Prop
  | number {v : Variable} {text : String} {n : Nat} (counts : v ≠ .indexUrl)
      (numeral : Text.Numeral text.toList n) (enough : v.least ≤ n) : Accepts v text (.number n)
  | text {text : String} {core : List Char} (trims : Text.Trims text.toList core)
      (some : core ≠ []) : Accepts .indexUrl text (.text (String.ofList core))

/-- A variable is set to a text that it takes nothing from. -/
def Refuses (lookup : String → Option String) (v : Variable) (text : String) : Prop :=
  lookup v.name = some text ∧ ∀ value, ¬Accepts v text value

/-- The warning about a text that is not accepted. -/
def refusal (v : Variable) (text : String) : Warning :=
  match default.get v with
  | .number kept => .invalid v.name text kept
  | .text kept => .empty v.name kept

@[simp] theorem about_refusal (v : Variable) (text : String) : (refusal v text).about = v.name := by
  cases v <;> rfl

/-- The settings of an environment, and the warnings about it. -/
structure Configures (lookup : String → Option String) (s : Settings) (warnings : List Warning) :
    Prop where
  unset : ∀ v, lookup v.name = none → s.get v = default.get v
  taken : ∀ v text value, lookup v.name = some text → Accepts v text value → s.get v = value
  refused : ∀ v text, Refuses lookup v text → s.get v = default.get v
  within : ∀ v n, s.get v = .number n → v.least ≤ n ∧ n < Text.counterBound
  warned : ∀ v text, Refuses lookup v text → warnings.filter (·.about = v.name) = [refusal v text]
  silent : ∀ v, (∀ text, ¬Refuses lookup v text) → warnings.filter (·.about = v.name) = []
  ordered : (warnings.map Warning.about).Sublist (Variable.all.map Variable.name)

/-! ## Reading one variable -/

/-- What a variable takes from a text. -/
def read? (v : Variable) (text : String) : Option Value :=
  match v with
  | .indexUrl => if Text.trim text.toList = [] then none else some (.text (Text.trimmed text))
  | v => ((Text.counter? text.toList).filter (v.least ≤ ·)).map Value.number

variable {v : Variable} {text : String} {value : Value}

theorem read?_of_counts (counts : v ≠ .indexUrl) (text : String) :
    read? v text = ((Text.counter? text.toList).filter (v.least ≤ ·)).map Value.number := by
  cases v <;> first | rfl | exact absurd rfl counts

theorem read?_eq_some_iff : read? v text = some value ↔ Accepts v text value := by
  constructor
  · intro read
    by_cases counts : v = .indexUrl
    · subst counts
      simp only [read?] at read
      split at read
      · cases read
      · rename_i some
        cases read
        exact .text (Text.trim_eq_iff.mp rfl) some
    · rw [read?_of_counts counts] at read
      obtain ⟨n, kept, rfl⟩ := Option.map_eq_some_iff.mp read
      obtain ⟨counter, enough⟩ := Option.filter_eq_some_iff.mp kept
      exact .number counts (Text.counter?_eq_some_iff.mp counter) (by simpa using enough)
  · intro accepts
    cases accepts with
    | number counts numeral enough =>
        rw [read?_of_counts counts, Text.counter?_eq_some_iff.mpr numeral]
        simp [enough]
    | text trims some =>
        obtain rfl := Text.trim_eq_iff.mpr trims
        simp [read?, some, Text.trimmed]

theorem read?_eq_none_iff : read? v text = none ↔ ∀ value, ¬Accepts v text value := by
  simp only [Option.eq_none_iff_forall_ne_some, ne_eq, read?_eq_some_iff]

variable (lookup : String → Option String)

/-- What a variable is set to. -/
def given? (v : Variable) : Option Value := (lookup v.name).bind (read? v)

/-- The warning about a variable, if there is one. -/
def refused? (v : Variable) : Option Warning :=
  (lookup v.name).bind fun text => if read? v text = none then some (refusal v text) else none

theorem readNumber_eq (counts : v ≠ .indexUrl) {kept : Nat}
    (usual : default.get v = .number kept) :
    Value.number (readNumber v v.least kept (lookup v.name)).1 =
        (given? lookup v).getD (default.get v) ∧
      (readNumber v v.least kept (lookup v.name)).2 = (refused? lookup v).toList := by
  unfold readNumber given? refused? refusal
  cases lookup v.name with
  | none => simp [usual]
  | some text =>
      cases counter : Text.counter? text.toList with
      | none => simp [read?_of_counts counts, counter, usual]
      | some n =>
          by_cases enough : v.least ≤ n <;>
            simp [read?_of_counts counts, counter, enough, usual, Option.filter]

theorem readText_eq :
    Value.text (readText .indexUrl default.indexUrl (lookup Variable.indexUrl.name)).1 =
        (given? lookup .indexUrl).getD (default.get .indexUrl) ∧
      (readText .indexUrl default.indexUrl (lookup Variable.indexUrl.name)).2 =
        (refused? lookup .indexUrl).toList := by
  unfold readText given? refused? refusal
  cases lookup Variable.indexUrl.name with
  | none => exact ⟨rfl, rfl⟩
  | some text => by_cases blank : Text.trim text.toList = [] <;> simp [read?, blank, get]

/-- Each setting is what its own variable is set to, or the default. -/
theorem get_ofEnvironment (v : Variable) :
    (ofEnvironment lookup).1.get v = (given? lookup v).getD (default.get v) := by
  cases v with
  | indexUrl => exact (readText_eq lookup).1
  | _ => exact (readNumber_eq lookup (by decide) rfl).1

theorem warnings_ofEnvironment :
    (ofEnvironment lookup).2 = Variable.all.filterMap (refused? lookup) := by
  have number (v : Variable) (counts : v ≠ .indexUrl) {kept : Nat}
      (usual : default.get v = .number kept) := (readNumber_eq lookup counts usual).2
  rw [List.filterMap_eq_flatMap_toList]
  simp only [Variable.all, List.flatMap_cons, List.flatMap_nil, List.append_nil,
    ← (readText_eq lookup).2, ← number .batchSize (by decide) rfl,
    ← number .timeLimit (by decide) rfl, ← number .resolveTimeout (by decide) rfl,
    ← number .downloadTimeout (by decide) rfl]
  simp only [ofEnvironment, Variable.least, List.append_assoc]

/-! ## The law -/

theorem get_of_unset (unset : lookup v.name = none) :
    (ofEnvironment lookup).1.get v = default.get v := by
  rw [get_ofEnvironment, given?, unset]
  rfl

variable {lookup}

theorem get_of_accepts (set : lookup v.name = some text) (accepts : Accepts v text value) :
    (ofEnvironment lookup).1.get v = value := by
  rw [get_ofEnvironment, given?, set, Option.bind_some, read?_eq_some_iff.mpr accepts]
  rfl

theorem get_of_refuses (refuses : Refuses lookup v text) :
    (ofEnvironment lookup).1.get v = default.get v := by
  rw [get_ofEnvironment, given?, refuses.1, Option.bind_some, read?_eq_none_iff.mpr refuses.2]
  rfl

/-- A setting depends on no variable but its own. -/
theorem get_of_same {lookup' : String → Option String} (same : lookup v.name = lookup' v.name) :
    (ofEnvironment lookup).1.get v = (ofEnvironment lookup').1.get v := by
  rw [get_ofEnvironment, get_ofEnvironment, given?, same]
  rfl

theorem refused?_eq_some_iff {w : Warning} :
    refused? lookup v = some w ↔ ∃ text, Refuses lookup v text ∧ refusal v text = w := by
  simp only [refused?, Refuses, Option.bind_eq_some_iff, Option.ite_none_right_eq_some,
    Option.some.injEq, read?_eq_none_iff, and_assoc]

theorem about_of_refused {w : Warning} (refused : refused? lookup v = some w) :
    w.about = v.name := by
  obtain ⟨text, -, rfl⟩ := refused?_eq_some_iff.mp refused
  exact about_refusal v text

/-- The warnings about a variable are none, or the one for its text. -/
theorem warnings_about (v : Variable) :
    (ofEnvironment lookup).2.filter (·.about = v.name) = (refused? lookup v).toList := by
  have own (w : Variable) : (refused? lookup w).filter (·.about = v.name) =
      if w = v then refused? lookup v else none := by
    cases refused : refused? lookup w with
    | none =>
        split
        · subst w
          rw [refused, Option.filter_none]
        · exact Option.filter_none _
    | some warning =>
        have about := about_of_refused refused
        by_cases same : w = v
        · subst same
          simp [refused, about]
        · simp [about, same, Variable.name_injective.eq_iff]
  rw [warnings_ofEnvironment, List.filter_filterMap]
  simp only [own]
  cases v <;> cases refused? lookup _ <;> rfl

theorem sublist_about (vs : List Variable) :
    ((vs.filterMap (refused? lookup)).map Warning.about).Sublist (vs.map Variable.name) := by
  induction vs with
  | nil => exact .slnil
  | cons v vs ih =>
      cases refused : refused? lookup v with
      | none =>
          rw [List.filterMap_cons_none refused]
          exact ih.cons _
      | some w =>
          rw [List.filterMap_cons_some refused, List.map_cons, about_of_refused refused]
          exact ih.cons_cons _

theorem Accepts.within {n : Nat} (accepts : Accepts v text (.number n)) :
    v.least ≤ n ∧ n < Text.counterBound := by
  cases accepts with
  | number _ numeral enough =>
      exact ⟨enough, Text.lt_of_counter? (Text.counter?_eq_some_iff.mpr numeral)⟩

theorem default_within {n : Nat} (usual : default.get v = .number n) :
    v.least ≤ n ∧ n < Text.counterBound := by
  cases v <;> cases usual <;> decide

theorem get_within {n : Nat} (number : (ofEnvironment lookup).1.get v = .number n) :
    v.least ≤ n ∧ n < Text.counterBound := by
  rw [get_ofEnvironment] at number
  cases given : given? lookup v with
  | none =>
      rw [given] at number
      exact default_within number
  | some value =>
      rw [given, Option.getD_some] at number
      obtain ⟨text, -, read⟩ := Option.bind_eq_some_iff.mp given
      exact (read?_eq_some_iff.mp (number ▸ read)).within

theorem configures_ofEnvironment (lookup : String → Option String) :
    Configures lookup (ofEnvironment lookup).1 (ofEnvironment lookup).2 where
  unset v := get_of_unset lookup
  taken v text value := get_of_accepts
  refused v text := get_of_refuses
  within v n := get_within
  warned v text refuses := by
    rw [warnings_about, refused?_eq_some_iff.mpr ⟨text, refuses, rfl⟩]
    rfl
  silent v quiet := by
    rw [warnings_about, Option.toList_eq_nil_iff, Option.eq_none_iff_forall_ne_some]
    intro w refused
    obtain ⟨text, refuses, -⟩ := refused?_eq_some_iff.mp refused
    exact quiet text refuses
  ordered := by
    rw [warnings_ofEnvironment]
    exact sublist_about Variable.all

end ApiInventory.Settings
