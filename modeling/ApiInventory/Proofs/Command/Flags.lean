import ApiInventory.Proofs.Command.Environment
import ApiInventory.Proofs.Command.Runs

/-!
# Flags before settings

A command line of flags can be told from its words alone: a flag is given a value if the words hold
the two attached, or one behind the other (`Gives`). What is accepted of such a line has been read
word by word (`Reading.Reads`, one case for each form of a word), and comes to a list of flags
(`Flags`) with a fit value each and no name twice (`Reading.Sound`). In such a list the values are
those that the words give (`Flags.gives_iff`), because no word that follows a flag as its value
could be taken for a flag itself.

The parameters of a run prevail over the settings of its environment, which have values for all that
is missing (`effective_settings`). A run knows the environment by no more than these values
(`run_of_sameForRun`).
-/

namespace ApiInventory.Command

/-! ## What is given -/

/-- The words give a flag a value, attached with an equals sign or as the next word. -/
def Gives (words : List String) (name value : String) : Prop :=
  "--" ++ name ++ "=" ++ value ∈ words ∨ ["--" ++ name, value] <:+: words

/-- A word that can follow a flag as its value. -/
def IsPlain (word : String) : Prop := word = "-" ∨ word.toList.head? ≠ some '-'

/-- The effects of what is given without a value. -/
def bareEffects : List Effect := [.help, .version, .switch]

/-- A shape without operands, whose only switch asks for more to be logged, and in which nothing
takes a value under a short name. -/
structure OnlyFlags (shape : Shape) : Prop where
  operand : shape.operand = none
  switch : ∀ p ∈ shape.options, p.effect = .switch → p = verboseOption
  short : ∀ p ∈ shape.options, p.short ≠ none → p.effect ∈ bareEffects
  plain : ∀ p ∈ shape.options, '=' ∉ p.name.toList
  unique : (shape.options.map Parameter.name).Nodup

theorem not_mem_bareEffects (kind : ValueKind) : .takes kind ∉ bareEffects := by
  simp [bareEffects]

/-- Words that are flags, and the values that they give. -/
inductive Flags (shape : Shape) : List String → List (String × String) → Prop
  | done : Flags shape [] []
  | ends : Flags shape ["--"] []
  | switch {word : String} {words : List String} {given : List (String × String)}
      (known : verboseOption ∈ shape.options) (verbose : word = "-v" ∨ word = "--verbose")
      (rest : Flags shape words given) :
      Flags shape (word :: words) ((verboseOption.name, "true") :: given)
  | joined {p : Parameter} {kind : ValueKind} {words : List String}
      {given : List (String × String)} (known : p ∈ shape.options) (takes : p.effect = .takes kind)
      (value : String) (rest : Flags shape words given) :
      Flags shape (("--" ++ p.name ++ "=" ++ value) :: words) ((p.name, value) :: given)
  | apart {p : Parameter} {kind : ValueKind} {value : String} {words : List String}
      {given : List (String × String)} (known : p ∈ shape.options) (takes : p.effect = .takes kind)
      (plain : IsPlain value) (rest : Flags shape words given) :
      Flags shape (("--" ++ p.name) :: value :: words) ((p.name, value) :: given)

/-! ## Reading flags -/

theorem bind_eq_ok_iff {ε α β : Type} {x : Except ε α} {f : α → Except ε β} {b : β} :
    (x >>= f) = .ok b ↔ ∃ a, x = .ok a ∧ f a = .ok b := by
  cases x <;> simp [bind, Except.bind]

/-- The fault of a value for a parameter. -/
def Parameter.fault? (p : Parameter) (value : String) : Option Rejection :=
  match p.effect with
  | .takes kind => kind.fault? value
  | _ => none

theorem fault?_counter_eq_none_iff {least : Nat} {value : String} :
    (ValueKind.counter least).fault? value = none ↔
      ∃ n, Text.counter? value.toList = some n ∧ least ≤ n := by
  unfold ValueKind.fault?
  cases Text.counter? value.toList <;> simp

theorem foldlM_cons_eq_ok_iff {ε α β : Type} {f : β → α → Except ε β} {x : α} {xs : List α}
    {b b' : β} :
    (x :: xs).foldlM f b = .ok b' ↔ ∃ next, f b x = .ok next ∧ xs.foldlM f next = .ok b' := by
  rw [List.foldlM_cons, bind_eq_ok_iff]

namespace Reading

variable {shape : Shape} {r r' : Reading} {p : Parameter} {value word : String}

theorem assign_eq_ok_iff :
    r.assign p value = .ok r' ↔
      r.has p.name = false ∧ p.fault? value = none ∧
        r' = { r with given := r.given ++ [(p.name, value)] } := by
  unfold assign Parameter.fault?
  cases r.has p.name with
  | true => simp
  | false =>
      cases p.effect with
      | takes kind => cases fault : kind.fault? value <;> simp [fault, eq_comm (b := r')]
      | _ => simp [eq_comm]

/-- The values that have been given, those that are still to be checked included. -/
def due (r : Reading) : List (String × String) :=
  r.given ++
    match r.pending with
    | some (p, some value) => [(p.name, value)]
    | _ => []

/-- Settled: nothing waits for a value, nor for a check of one. -/
theorem settle_cases (settled : r.settle = .ok r') :
    (r.pending = none ∧ r' = r) ∨
      ∃ p value, r.pending = some (p, some value) ∧
        { r with pending := none }.assign p value = .ok r' := by
  unfold settle at settled
  split at settled
  · rename_i nothing
    exact .inl ⟨nothing, (Except.ok.inj settled).symm⟩
  · cases settled
  · rename_i p value waiting
    exact .inr ⟨p, value, waiting, settled⟩

theorem of_settle (settled : r.settle = .ok r') :
    r'.given = r.due ∧ r'.pending = none ∧ r'.onlyOperands = r.onlyOperands ∧
      ∀ p, r.pending ≠ some (p, none) := by
  rcases settle_cases settled with ⟨nothing, rfl⟩ | ⟨p, value, waiting, assigned⟩
  · simp [due, nothing]
  · obtain ⟨-, -, rfl⟩ := assign_eq_ok_iff.mp assigned
    simp [due, waiting]

/-- A value that is given comes behind those that were due. -/
theorem of_assign {calm : Reading} (settled : r.settle = .ok calm)
    (assigned : calm.assign p value = .ok r') :
    r'.due = r.due ++ [(p.name, value)] ∧ r'.pending = none ∧ r'.onlyOperands = r.onlyOperands := by
  obtain ⟨given, none, same, -⟩ := of_settle settled
  obtain ⟨-, -, rfl⟩ := assign_eq_ok_iff.mp assigned
  exact ⟨by simp [due, given, none], none, same⟩

/-- One word that is read, and how things stand behind it. -/
inductive Reads (shape : Shape) (r : Reading) : String → Reading → Prop
  | ends : Reads shape r "--" { r with onlyOperands := true }
  | switch {word : String} {calm r' : Reading} (known : verboseOption ∈ shape.options)
      (verbose : word = "-v" ∨ word = "--verbose") (settled : r.settle = .ok calm)
      (assigned : calm.assign verboseOption "true" = .ok r') : Reads shape r word r'
  | joined {p : Parameter} {kind : ValueKind} {value : String} {calm r' : Reading}
      (known : p ∈ shape.options) (takes : p.effect = .takes kind)
      (settled : r.settle = .ok calm) (assigned : calm.assign p value = .ok r') :
      Reads shape r ("--" ++ p.name ++ "=" ++ value) r'
  | opens {p : Parameter} {kind : ValueKind} {calm : Reading} (known : p ∈ shape.options)
      (takes : p.effect = .takes kind) (settled : r.settle = .ok calm) :
      Reads shape r ("--" ++ p.name) { calm with pending := some (p, none) }
  | fills {p : Parameter} {word : String} (waiting : r.pending = some (p, none))
      (plain : IsPlain word) : Reads shape r word { r with pending := some (p, some word) }

theorem operand_eq_error (none : shape.operand = none) (r : Reading) (word : String) :
    ∃ e, r.operand shape word = .error e := by
  unfold operand
  rw [none]
  dsimp only
  split
  · exact ⟨_, rfl⟩
  · exact ⟨_, rfl⟩

theorem has_of_mem {name : String} (member : (name, value) ∈ r.given) : r.has name = true := by
  rw [has, value?, List.lookup_isSome_iff]
  exact ⟨_, member, beq_self_eq_true _⟩

/-- What is not turned down is the switch, or waits for a value. -/
theorem apply_cases (flags : OnlyFlags shape) (known : p ∈ shape.options)
    (applied : r.apply p = .ok r') :
    (p = verboseOption ∧ r.assign verboseOption "true" = .ok r') ∨
      ∃ kind, p.effect = .takes kind ∧ r' = { r with pending := some (p, none) } := by
  unfold apply at applied
  split at applied
  · cases applied
  · cases applied
  · rename_i switch
    obtain rfl := flags.switch p known switch
    exact .inl ⟨rfl, applied⟩
  · rename_i kind takes
    exact .inr ⟨kind, takes, (Except.ok.inj applied).symm⟩

theorem of_long? {name : List Char} (found : shape.long? name = some p) :
    p ∈ shape.options ∧ p.name = String.ofList name :=
  ⟨List.mem_of_find?_eq_some found, by simpa using List.find?_some found⟩

theorem of_short? {c : Char} (found : shape.short? c = some p) :
    p ∈ shape.options ∧ p.short = some c :=
  ⟨List.mem_of_find?_eq_some found, by simpa using List.find?_some found⟩

/-- Of the short names only that of the switch is read on. -/
theorem cluster_cons (flags : OnlyFlags shape) {c : Char} {rest : List Char}
    (read : r.cluster shape (c :: rest) = .ok r') :
    c = 'v' ∧ verboseOption ∈ shape.options ∧ ∃ calm next, r.settle = .ok calm ∧
      calm.assign verboseOption "true" = .ok next ∧ next.cluster shape rest = .ok r' := by
  rw [cluster] at read
  split at read
  · cases read
  · rename_i p found
    obtain ⟨known, short⟩ := of_short? found
    have bare := flags.short p known (by simp [short])
    split at read
    · rename_i kind _ _ takes
      exact absurd (takes ▸ bare) (not_mem_bareEffects kind)
    · obtain ⟨calm, settled, read⟩ := bind_eq_ok_iff.mp read
      obtain ⟨next, applied, onward⟩ := bind_eq_ok_iff.mp read
      rcases apply_cases flags known applied with ⟨rfl, assigned⟩ | ⟨kind, takes, -⟩
      · exact ⟨(Option.some.inj short).symm, known, calm, next, settled, assigned, onward⟩
      · exact absurd (takes ▸ bare) (not_mem_bareEffects kind)

/-- Short names cannot be put together, because there is only one and it can be given once. -/
theorem reads_of_cluster (flags : OnlyFlags shape) {c : Char} {rest : List Char}
    (spelled : word.toList = '-' :: c :: rest) (read : r.cluster shape (c :: rest) = .ok r') :
    Reads shape r word r' := by
  obtain ⟨rfl, known, calm, next, settled, assigned, onward⟩ := cluster_cons flags read
  cases rest with
  | nil =>
      obtain rfl : next = r' := Except.ok.inj onward
      have word : word = "-v" := String.toList_inj.mp spelled
      exact .switch known (.inl word) settled assigned
  | cons c rest =>
      obtain ⟨-, -, calm', _, settled', assigned', -⟩ := cluster_cons flags onward
      obtain ⟨absent, -, -⟩ := assign_eq_ok_iff.mp assigned'
      obtain ⟨-, -, rfl⟩ := assign_eq_ok_iff.mp assigned
      obtain ⟨given, -⟩ := of_settle settled'
      have member : (verboseOption.name, "true") ∈ calm'.given := by simp [given, due]
      rw [has_of_mem member] at absent
      cases absent

/-- What follows two hyphens is a name and, behind an equals sign, its value. -/
theorem reads_of_long (flags : OnlyFlags shape) {body : List Char}
    (spelled : word.toList = '-' :: '-' :: body) (read : r.long shape body = .ok r') :
    Reads shape r word r' := by
  have parts : body = body.takeWhile (· ≠ '=') ++ body.dropWhile (· ≠ '=') :=
    List.takeWhile_append_dropWhile.symm
  have behind : body.drop (body.takeWhile (· ≠ '=')).length = body.dropWhile (· ≠ '=') := by
    calc body.drop (body.takeWhile (· ≠ '=')).length
      _ = (body.takeWhile (· ≠ '=') ++ body.dropWhile (· ≠ '=')).drop
            (body.takeWhile (· ≠ '=')).length := by rw [← parts]
      _ = body.dropWhile (· ≠ '=') := List.drop_left
  have stops := List.head?_dropWhile_not (· ≠ '=') body
  unfold long at read
  dsimp only at read
  rw [behind] at read
  generalize body.takeWhile (· ≠ '=') = name at parts read
  generalize body.dropWhile (· ≠ '=') = rest at parts stops read
  split at read
  · cases read
  · rename_i p found
    obtain ⟨known, name⟩ := of_long? found
    have word : word = "--" ++ p.name := by
      rw [← String.toList_inj, spelled, parts, name]
      simp
    obtain ⟨calm, settled, applied⟩ := bind_eq_ok_iff.mp read
    rcases apply_cases flags known applied with ⟨rfl, assigned⟩ | ⟨kind, takes, rfl⟩
    · exact .switch known (.inr word) settled assigned
    · exact word ▸ .opens known takes settled
  · rename_i p equals value found
    obtain ⟨known, name⟩ := of_long? found
    have sign : equals = '=' := by simpa using stops
    have word : word = "--" ++ p.name ++ "=" ++ String.ofList value := by
      rw [← String.toList_inj, spelled, parts, sign, name]
      simp
    split at read
    · rename_i kind takes
      obtain ⟨calm, settled, assigned⟩ := bind_eq_ok_iff.mp read
      exact word ▸ .joined known takes settled assigned
    · cases read

/-- A word that is not turned down has one of the forms. -/
theorem reads_of_step (flags : OnlyFlags shape) (onlyFlags : r.onlyOperands = false)
    (read : r.step shape word = .ok r') : Reads shape r word r' := by
  unfold step at read
  rw [if_neg (Bool.eq_false_iff.mp onlyFlags)] at read
  split at read
  · rename_i spelled
    obtain rfl : word = "--" := String.toList_inj.mp spelled
    cases read
    exact .ends
  · rename_i spelled
    exact reads_of_long flags spelled read
  · rename_i spelled
    exact reads_of_cluster flags spelled read
  · rename_i noEnd noLong noShort
    split at read
    · rename_i p waiting
      cases read
      refine .fills waiting ?_
      cases spelled : word.toList with
      | nil => exact .inr (by simp [spelled])
      | cons c rest =>
          by_cases hyphen : c = '-'
          · subst hyphen
            cases rest with
            | nil => exact .inl (String.toList_inj.mp spelled)
            | cons c rest => exact absurd spelled (noShort c rest)
          · exact .inr (by simpa [spelled] using hyphen)
    · obtain ⟨e, error⟩ := operand_eq_error flags.operand r word
      rw [error] at read
      cases read

/-! ### Whole lines -/

/-- The values that have been given are fit, and there is no more than one for a name. -/
structure Sound (shape : Shape) (r : Reading) : Prop where
  once : (r.given.map Prod.fst).Nodup
  fit : ∀ e ∈ r.given, ∃ p ∈ shape.options, p.name = e.1 ∧ p.fault? e.2 = none
  known : ∀ p value, r.pending = some (p, value) → p ∈ shape.options

theorem Sound.assign (sound : Sound shape r) (known : p ∈ shape.options)
    (assigned : r.assign p value = .ok r') : Sound shape r' := by
  obtain ⟨absent, fit, rfl⟩ := assign_eq_ok_iff.mp assigned
  refine ⟨?_, ?_, sound.known⟩
  · rw [List.map_append, List.map_singleton, ← List.concat_eq_append, List.nodup_concat]
    refine ⟨fun member => ?_, sound.once⟩
    obtain ⟨⟨name, value'⟩, inside, rfl⟩ := List.mem_map.mp member
    rw [has_of_mem inside] at absent
    cases absent
  · refine List.forall_mem_append.mpr ⟨sound.fit, List.forall_mem_singleton.mpr ?_⟩
    exact ⟨p, known, rfl, fit⟩

theorem Sound.settle (sound : Sound shape r) (settled : r.settle = .ok r') : Sound shape r' := by
  rcases settle_cases settled with ⟨-, rfl⟩ | ⟨p, value, waiting, assigned⟩
  · exact sound
  · have calm : Sound shape { r with pending := none } := ⟨sound.once, sound.fit, nofun⟩
    exact calm.assign (sound.known p _ waiting) assigned

theorem Sound.reads (sound : Sound shape r) (reads : Reads shape r word r') : Sound shape r' := by
  cases reads with
  | ends => exact ⟨sound.once, sound.fit, sound.known⟩
  | switch known _ settled assigned => exact (sound.settle settled).assign known assigned
  | joined known _ settled assigned => exact (sound.settle settled).assign known assigned
  | @opens p kind calm known _ settled =>
      have calm := sound.settle settled
      refine ⟨calm.once, calm.fit, ?_⟩
      rintro q _ ⟨⟩
      exact known
  | @fills p word waiting _ =>
      refine ⟨sound.once, sound.fit, ?_⟩
      rintro q _ ⟨⟩
      exact sound.known p _ waiting

/-- Behind two hyphens alone nothing more is read. -/
theorem eq_nil_of_onlyOperands (flags : OnlyFlags shape) (ended : r.onlyOperands = true)
    {words : List String} (read : words.foldlM (step shape) r = .ok r') :
    words = [] ∧ r' = r := by
  cases words with
  | nil => exact ⟨rfl, (Except.ok.inj read).symm⟩
  | cons word words =>
      obtain ⟨next, stepped, -⟩ := foldlM_cons_eq_ok_iff.mp read
      obtain ⟨e, error⟩ := operand_eq_error flags.operand r word
      rw [step, if_pos ended, error] at stepped
      cases stepped

variable {last final : Reading}

/-- The words that are read are flags, except that the first is the value of a flag in front of them
if that waits for it. -/
theorem flags_of_foldlM (flags : OnlyFlags shape) {words : List String}
    (read : words.foldlM (step shape) r = .ok last) (settled : last.settle = .ok final)
    (onlyFlags : r.onlyOperands = false) :
    ((∀ p, r.pending ≠ some (p, none)) →
      ∃ given, Flags shape words given ∧ final.given = r.due ++ given) ∧
    ∀ p, r.pending = some (p, none) → ∃ value rest given, words = value :: rest ∧
      IsPlain value ∧ Flags shape rest given ∧
        final.given = r.given ++ (p.name, value) :: given := by
  -- What is due grows by what each word gives, and the last word must leave nothing waiting.
  induction words generalizing r with
  | nil =>
      obtain rfl : r = last := Except.ok.inj read
      obtain ⟨given, -, -, calm⟩ := of_settle settled
      exact ⟨fun _ => ⟨[], .done, by rw [given, List.append_nil]⟩,
        fun p waiting => absurd waiting (calm p)⟩
  | cons word words ih =>
      obtain ⟨next, stepped, onward⟩ := foldlM_cons_eq_ok_iff.mp read
      cases reads_of_step flags onlyFlags stepped with
      | ends =>
          obtain ⟨rfl, rfl⟩ := eq_nil_of_onlyOperands flags rfl onward
          obtain ⟨given, -, -, calm⟩ := of_settle settled
          exact ⟨fun _ => ⟨[], .ends, by rw [given, List.append_nil]; rfl⟩,
            fun p waiting => absurd waiting (calm p)⟩
      | switch known verbose before assigned =>
          obtain ⟨-, -, -, calm⟩ := of_settle before
          obtain ⟨given, none, same⟩ := of_assign before assigned
          obtain ⟨more, rest, all⟩ := (ih onward (same.trans onlyFlags)).1 (by simp [none])
          exact ⟨fun _ => ⟨_, .switch known verbose rest, by simp [all, given]⟩,
            fun p waiting => absurd waiting (calm p)⟩
      | @joined p kind value _ _ known takes before assigned =>
          obtain ⟨-, -, -, calm⟩ := of_settle before
          obtain ⟨given, none, same⟩ := of_assign before assigned
          obtain ⟨more, rest, all⟩ := (ih onward (same.trans onlyFlags)).1 (by simp [none])
          exact ⟨fun _ => ⟨_, .joined known takes value rest, by simp [all, given]⟩,
            fun p waiting => absurd waiting (calm p)⟩
      | @opens p kind _ known takes before =>
          obtain ⟨given, none, same, calm⟩ := of_settle before
          obtain ⟨value, rest, more, rfl, plain, later, all⟩ :=
            (ih onward (same.trans onlyFlags)).2 p rfl
          exact ⟨fun _ => ⟨_, .apart known takes plain later, by rw [all, given]⟩,
            fun p waiting => absurd waiting (calm p)⟩
      | @fills p _ waiting plain =>
          obtain ⟨more, rest, all⟩ := (ih onward onlyFlags).1 (by simp)
          refine ⟨fun calm => absurd waiting (calm p), fun q waiting' => ?_⟩
          cases waiting.symm.trans waiting'
          refine ⟨word, words, more, rfl, plain, rest, ?_⟩
          rw [all, due]
          simp

theorem Sound.step (flags : OnlyFlags shape) (sound : Sound shape r)
    (read : r.step shape word = .ok r') : Sound shape r' := by
  cases ended : r.onlyOperands with
  | false => exact sound.reads (reads_of_step flags ended read)
  | true =>
      obtain ⟨e, error⟩ := operand_eq_error flags.operand r word
      rw [Reading.step, if_pos ended, error] at read
      cases read

theorem Sound.foldlM (flags : OnlyFlags shape) {words : List String} (sound : Sound shape r)
    (read : words.foldlM (Reading.step shape) r = .ok last) : Sound shape last := by
  induction words generalizing r with
  | nil =>
      obtain rfl : r = last := Except.ok.inj read
      exact sound
  | cons word words ih =>
      obtain ⟨next, stepped, onward⟩ := foldlM_cons_eq_ok_iff.mp read
      exact ih (sound.step flags stepped) onward

theorem sound_start (shape : Shape) : Sound shape start := ⟨.nil, List.forall_mem_nil _, nofun⟩

/-- A command line that is read to its end is one of flags, each with a value that is fit. -/
theorem of_all (flags : OnlyFlags shape) {words : List String}
    (read : Reading.all shape words = .ok r) : Flags shape words r.given ∧ Sound shape r := by
  obtain ⟨last, folded, read⟩ := bind_eq_ok_iff.mp read
  obtain ⟨final, settled, read⟩ := bind_eq_ok_iff.mp read
  rw [flags.operand] at read
  obtain rfl : final = r := Except.ok.inj read
  obtain ⟨given, all, same⟩ := (flags_of_foldlM flags folded settled rfl).1 nofun
  refine ⟨?_, ((sound_start shape).foldlM flags folded).settle settled⟩
  rw [same]
  exact all

/-- A name has the value that was given for it. -/
theorem Sound.value?_eq_some_iff (sound : Sound shape r) {name : String} :
    r.value? name = some value ↔ (name, value) ∈ r.given := by
  constructor
  · intro found
    obtain ⟨before, after, split, -⟩ := List.lookup_eq_some_iff.mp found
    rw [split]
    simp
  · intro member
    obtain ⟨value', found⟩ := Option.isSome_iff_exists.mp (has_of_mem member)
    obtain ⟨before, after, split, -⟩ := List.lookup_eq_some_iff.mp found
    have member' : (name, value') ∈ r.given := by
      rw [split]
      simp
    have same := List.inj_on_of_nodup_map sound.once member member' rfl
    rw [found, (Prod.mk.inj same).2]

theorem Sound.fault?_eq_none (flags : OnlyFlags shape) (sound : Sound shape r)
    (known : p ∈ shape.options) (member : (p.name, value) ∈ r.given) : p.fault? value = none := by
  obtain ⟨q, known', name, fit⟩ := sound.fit _ member
  rwa [List.inj_on_of_nodup_map flags.unique known known' name.symm]

end Reading

/-! ## Which values are given -/

section

variable {name name' value value' word : String} {words : List String}

theorem IsPlain.ne (plain : IsPlain word) (text : String) : word ≠ "--" ++ text := by
  rintro rfl
  rcases plain with single | other
  · have same := congrArg String.toList single
    simp at same
  · simp at other

theorem dashes_inj_iff : "--" ++ name = "--" ++ name' ↔ name = name' := by
  rw [← String.toList_inj, ← String.toList_inj]
  simp

theorem ne_joined (noEquals : '=' ∉ name.toList) :
    "--" ++ name ≠ "--" ++ name' ++ "=" ++ value := by
  intro same
  have letters : name.toList = name'.toList ++ '=' :: value.toList := by
    simpa using congrArg String.toList same
  rw [letters] at noEquals
  simp at noEquals

theorem joined_inj_iff (noEquals : '=' ∉ name.toList) (noEquals' : '=' ∉ name'.toList) :
    "--" ++ name ++ "=" ++ value = "--" ++ name' ++ "=" ++ value' ↔
      name = name' ∧ value = value' := by
  constructor
  · intro same
    have letters : name.toList ++ '=' :: value.toList = name'.toList ++ '=' :: value'.toList := by
      simpa using congrArg String.toList same
    have front {text rest : List Char} (none : '=' ∉ text) :
        (text ++ '=' :: rest).takeWhile (· ≠ '=') = text := by
      have all : ∀ c ∈ text, decide (c ≠ '=') = true := fun c member =>
        decide_eq_true fun same => none (same ▸ member)
      rw [List.takeWhile_append_of_pos all, List.takeWhile_cons_of_neg (by simp), List.append_nil]
    have names := congrArg (List.takeWhile (· ≠ '=')) letters
    rw [front noEquals, front noEquals'] at names
    rw [names, List.append_cancel_left_eq] at letters
    exact ⟨String.toList_inj.mp names, String.toList_inj.mp (List.cons.inj letters).2⟩
  · rintro ⟨rfl, rfl⟩
    rfl

theorem gives_cons_iff :
    Gives (word :: words) name value ↔
      word = "--" ++ name ++ "=" ++ value ∨ (word = "--" ++ name ∧ words.head? = some value) ∨
        Gives words name value := by
  have next : [value] <+: words ↔ words.head? = some value := by
    cases words <;> simp [List.cons_prefix_cons, eq_comm]
  simp only [Gives, List.mem_cons, List.infix_cons_iff, List.cons_prefix_cons, next]
  tauto

end

variable {shape : Shape} {p : Parameter} {kind : ValueKind} {value : String}

/-- In a list of flags, those values are given that can be seen to be. -/
theorem Flags.gives_iff {words : List String} {given : List (String × String)}
    (h : Flags shape words given) (flags : OnlyFlags shape) (known : p ∈ shape.options)
    (takes : p.effect = .takes kind) : Gives words p.name value ↔ (p.name, value) ∈ given := by
  have noEquals := flags.plain p known
  induction h with
  | done => simp [Gives]
  | ends =>
      have noValue : "--" ≠ "--" ++ p.name ++ "=" ++ value := by
        intro same
        simpa using congrArg String.toList same
      rw [gives_cons_iff]
      simp [Gives, noValue]
  | @switch word words given verboseKnown verbose rest ih =>
      have other : p.name ≠ "verbose" := by
        intro same
        rw [List.inj_on_of_nodup_map flags.unique known verboseKnown same] at takes
        cases takes
      have long : "--verbose" = "--" ++ "verbose" := rfl
      have noValue : word ≠ "--" ++ p.name ++ "=" ++ value := by
        rcases verbose with rfl | rfl
        · intro same
          simpa using congrArg String.toList same
        · exact long ▸ ne_joined (by decide)
      have noName : word ≠ "--" ++ p.name := by
        rcases verbose with rfl | rfl
        · intro same
          simpa using congrArg String.toList same
        · rw [long, ne_eq, dashes_inj_iff]
          exact Ne.symm other
      have elsewhere : (p.name, value) ≠ (verboseOption.name, "true") := by
        simp [verboseOption, other]
      simp [gives_cons_iff, ih, noValue, noName, elsewhere]
  | @joined q kind' words given known' takes' value' rest ih =>
      have noName : "--" ++ q.name ++ "=" ++ value' ≠ "--" ++ p.name := (ne_joined noEquals).symm
      simp only [gives_cons_iff, ih, joined_inj_iff (flags.plain q known') noEquals, List.mem_cons,
        Prod.mk.injEq, noName, false_and, false_or, eq_comm]
  | @apart q kind' value' words given known' takes' plain rest ih =>
      have noValue : "--" ++ q.name ≠ "--" ++ p.name ++ "=" ++ value :=
        ne_joined (flags.plain q known')
      have second (text : String) : value' ≠ "--" ++ text := plain.ne text
      have third : value' ≠ "--" ++ p.name ++ "=" ++ value := by
        rw [String.append_assoc, String.append_assoc]
        exact second _
      simp only [gives_cons_iff, ih, noValue, dashes_inj_iff, second, third, List.head?_cons,
        Option.some.injEq, List.mem_cons, Prod.mk.injEq, false_and, false_or, eq_comm]

/-! ## Command lines of a run -/

theorem onlyFlags_run : OnlyFlags Subcommand.run.shape where
  operand := rfl
  switch := by decide
  short := by decide
  plain := by decide
  unique := by decide

theorem onlyFlags_main : OnlyFlags mainShape where
  operand := rfl
  switch := by decide
  short := by decide
  plain := by decide
  unique := by decide

/-- The flags of a run that prevail over settings. -/
theorem overriding_run :
    taking "batch-size" (.counter 1) ∈ Subcommand.run.shape.options ∧
      taking "time-limit-secs" (.counter 0) ∈ Subcommand.run.shape.options ∧
      taking "index-url" .text ∈ Subcommand.run.shape.options := by
  decide

/-- In front of a subcommand nothing takes a value. -/
theorem bare_main : ∀ p ∈ mainShape.options, p.effect ∈ bareEffects := by decide

variable {r reading : Reading} {arguments : List String} {isVerbose : Bool} {o : RunOptions}

theorem readFrom_of_onlyOperands (ended : r.onlyOperands = true) (arguments : List String) :
    ∃ e, readFrom r arguments = .error e := by
  cases arguments with
  | nil => exact ⟨_, rfl⟩
  | cons argument rest =>
      obtain ⟨e, error⟩ := Reading.operand_eq_error onlyFlags_main.operand r argument
      refine ⟨e, ?_⟩
      simp [readFrom, ended, Reading.step, error]

/-- In front of a subcommand there are switches, or two hyphens alone. -/
theorem main_step_cases {next : Reading} {word : String} (calm : r.pending = none)
    (onlyFlags : r.onlyOperands = false) (stepped : r.step mainShape word = .ok next) :
    next.onlyOperands = true ∨ ((word = "-v" ∨ word = "--verbose") ∧ next.pending = none) := by
  cases Reading.reads_of_step onlyFlags_main onlyFlags stepped with
  | ends => exact .inl rfl
  | switch _ verbose settled assigned =>
      exact .inr ⟨verbose, (Reading.of_assign settled assigned).2.1⟩
  | @joined p kind _ _ _ known takes | @opens p kind _ known takes =>
      exact absurd (takes ▸ bare_main p known) (not_mem_bareEffects kind)
  | fills waiting =>
      rw [calm] at waiting
      cases waiting

/-- A run is read from the words behind its name. -/
theorem of_readFrom (calm : r.pending = none)
    (read : readFrom r arguments = .ok ⟨isVerbose, .run o⟩) :
    ∃ before words reading, arguments = before ++ Subcommand.run.name :: words ∧
      (∀ word ∈ before, word = "-v" ∨ word = "--verbose") ∧
      Reading.all Subcommand.run.shape words = .ok reading ∧
      Subcommand.run.task reading = .run o := by
  induction arguments generalizing r with
  | nil => cases read
  | cons argument rest ih =>
      cases ended : r.onlyOperands with
      | true =>
          obtain ⟨e, error⟩ := readFrom_of_onlyOperands ended (argument :: rest)
          rw [error] at read
          cases read
      | false =>
          rw [readFrom] at read
          simp only [ended, Bool.false_eq_true, if_false] at read
          split at read
          · rename_i c named
            obtain ⟨reading, all, read⟩ := bind_eq_ok_iff.mp read
            have task : c.task reading = .run o := (Invocation.mk.inj (Except.ok.inj read)).2
            cases c with
            | run =>
                have name : Subcommand.run.name = argument := by
                  simpa using List.find?_some named
                exact ⟨[], rest, reading, by rw [name]; rfl, List.forall_mem_nil _, all, task⟩
            | _ => cases task
          · split at read
            · cases read
            · split at read
              · cases read
              · rename_i next stepped
                rcases main_step_cases calm ended stepped with closed | ⟨verbose, quiet⟩
                · obtain ⟨e, error⟩ := readFrom_of_onlyOperands closed rest
                  rw [error] at read
                  cases read
                · obtain ⟨before, words, reading, rfl, verboses, all, task⟩ := ih quiet read
                  exact ⟨argument :: before, words, reading, rfl,
                    List.forall_mem_cons.mpr ⟨verbose, verboses⟩, all, task⟩

/-! ## Flags before settings -/

open Settings (Variable Accepts)

/-- A value is the one of a flag, or another one if the flag is not given. -/
structure Prevails {α : Type} (words : List String) (name : String) (means : String → α → Prop)
    (kept value : α) : Prop where
  given : ∀ text, Gives words name text → means text value
  missing : (∀ text, ¬Gives words name text) → value = kept

/-- What a run goes by. -/
structure Effective (words : List String) (o : RunOptions) (s : Settings) : Prop where
  batchSize : Prevails words "batch-size" (fun text n => Accepts .batchSize text (.number n))
    s.batchSize (o.effectiveBatchSize s)
  timeLimit : Prevails words "time-limit-secs" (fun text n => Accepts .timeLimit text (.number n))
    s.timeLimitSecs (o.effectiveTimeLimitSecs s)
  indexUrl : Prevails words "index-url" (fun text url => text = url)
    s.indexUrl (o.effectiveIndexUrl s)

variable {words : List String}

/-- What a name has the value of is what the words give to it. -/
theorem value?_eq_some_iff (all : Reading.all Subcommand.run.shape words = .ok reading)
    {name text : String} {kind : ValueKind}
    (known : taking name kind ∈ Subcommand.run.shape.options) :
    reading.value? name = some text ↔ Gives words name text := by
  obtain ⟨flags, sound⟩ := Reading.of_all onlyFlags_run all
  rw [sound.value?_eq_some_iff]
  exact (flags.gives_iff onlyFlags_run known rfl).symm

theorem value?_eq_none (all : Reading.all Subcommand.run.shape words = .ok reading)
    {name : String} {kind : ValueKind}
    (known : taking name kind ∈ Subcommand.run.shape.options)
    (missing : ∀ text, ¬Gives words name text) : reading.value? name = none := by
  rw [Option.eq_none_iff_forall_ne_some]
  intro text found
  exact missing text ((value?_eq_some_iff all known).mp found)

/-- The counters that a flag takes are the numbers that its variable takes. -/
theorem counter_prevails (all : Reading.all Subcommand.run.shape words = .ok reading)
    {name : String} (v : Variable) (counts : v ≠ .indexUrl)
    (known : taking name (.counter v.least) ∈ Subcommand.run.shape.options) (kept : Nat) :
    Prevails words name (fun text n => Accepts v text (.number n)) kept
      ((counterOf reading name).getD kept) := by
  obtain ⟨-, sound⟩ := Reading.of_all onlyFlags_run all
  constructor
  · intro text gives
    have value := (value?_eq_some_iff all known).mpr gives
    have fit := sound.fault?_eq_none onlyFlags_run known (sound.value?_eq_some_iff.mp value)
    obtain ⟨n, counter, enough⟩ := fault?_counter_eq_none_iff.mp fit
    rw [counterOf, value, Option.bind_some, counter]
    exact .number counts (Text.counter?_eq_some_iff.mp counter) enough
  · intro missing
    rw [counterOf, value?_eq_none all known missing]
    rfl

theorem text_prevails (all : Reading.all Subcommand.run.shape words = .ok reading)
    {name : String} {kind : ValueKind} (known : taking name kind ∈ Subcommand.run.shape.options)
    (kept : String) :
    Prevails words name (fun text value => text = value) kept
      ((reading.value? name).getD kept) where
  given text gives := by rw [(value?_eq_some_iff all known).mpr gives, Option.getD_some]
  missing none := by rw [value?_eq_none all known none, Option.getD_none]

theorem effective_of_all (all : Reading.all Subcommand.run.shape words = .ok reading)
    (task : Subcommand.run.task reading = .run o) (s : Settings) : Effective words o s := by
  obtain rfl := Task.run.inj task
  obtain ⟨batchSize, timeLimit, indexUrl⟩ := overriding_run
  exact ⟨counter_prevails all .batchSize (by decide) batchSize s.batchSize,
    counter_prevails all .timeLimit (by decide) timeLimit s.timeLimitSecs,
    text_prevails all indexUrl s.indexUrl⟩

/-- What is true of all that a flag can mean, and of what is kept without it, is true of the
value. -/
theorem Prevails.elim {α : Type} {name : String} {means : String → α → Prop} {kept value : α}
    (prevails : Prevails words name means kept value) {P : α → Prop}
    (ofMeans : ∀ text x, means text x → P x) (ofKept : P kept) : P value := by
  by_cases given : ∃ text, Gives words name text
  · obtain ⟨text, gives⟩ := given
    exact ofMeans text value (prevails.given text gives)
  · simp only [not_exists] at given
    rwa [prevails.missing given]

/-- Neither a flag nor a variable can set the batch size to zero. -/
theorem Effective.one_le_batchSize {lookup : String → Option String}
    (effective : Effective words o (Settings.ofEnvironment lookup).1) :
    1 ≤ o.effectiveBatchSize (Settings.ofEnvironment lookup).1 := by
  refine effective.batchSize.elim (fun text n accepts => accepts.within.1) ?_
  exact ((Settings.configures_ofEnvironment lookup).within .batchSize _ rfl).1

/-- Surroundings whose environments come to the same for a run. -/
structure SameForRun {σ : Type} (x x' : Surroundings σ) (o : RunOptions) : Prop where
  surroundings : x' = { x with environment := x'.environment }
  temporary : temporaryDirectory x' = temporaryDirectory x
  batchSize : o.effectiveBatchSize x'.settings = o.effectiveBatchSize x.settings
  timeLimit : o.effectiveTimeLimitSecs x'.settings = o.effectiveTimeLimitSecs x.settings
  indexUrl : o.effectiveIndexUrl x'.settings = o.effectiveIndexUrl x.settings

/-- So an overridden variable can be set to anything, and the run is the same. -/
theorem run_of_sameForRun {σ : Type} {x x' : Surroundings σ} (same : SameForRun x x' o)
    (t : Files.FileTree) (s : σ) : run x' o t s = run x o t s := by
  obtain ⟨surroundings, temporary, batchSize, timeLimit, indexUrl⟩ := same
  generalize x'.environment = environment at surroundings
  subst surroundings
  have services : o.services { x with environment := environment } = o.services x := by
    simp only [RunOptions.services, indexUrl]
  have desk : o.desk { x with environment := environment } = o.desk x := by
    simp only [RunOptions.desk, temporary]
  simp only [run, packagesIn?, timeLimit, runBatch, services, desk, batchSize]

/-- **Settings and flags do not interfere.** The settings of an environment are read variable by
variable, and each depends on its own alone. Whatever the environment, a run whose command line is
accepted goes by the flags that the words give, and by the settings for those that are missing, and
neither its batch size nor its timeout for versions can be zero. -/
theorem effective_settings :
    (∀ lookup, Settings.Configures lookup (Settings.ofEnvironment lookup).1
      (Settings.ofEnvironment lookup).2) ∧
    (∀ (lookup lookup' : String → Option String) (v : Variable),
      lookup v.name = lookup' v.name →
        (Settings.ofEnvironment lookup).1.get v = (Settings.ofEnvironment lookup').1.get v) ∧
    ∀ arguments isVerbose o, Invocation.ofArguments arguments = .ok ⟨isVerbose, .run o⟩ →
      ∃ before words, arguments = before ++ Subcommand.run.name :: words ∧
        (∀ word ∈ before, word = "-v" ∨ word = "--verbose") ∧
        ∀ lookup, Effective words o (Settings.ofEnvironment lookup).1 ∧
          1 ≤ o.effectiveBatchSize (Settings.ofEnvironment lookup).1 ∧
          1 ≤ (Settings.ofEnvironment lookup).1.resolveTimeoutSecs := by
  refine ⟨Settings.configures_ofEnvironment, fun lookup lookup' v => Settings.get_of_same, ?_⟩
  intro arguments isVerbose o accepted
  obtain ⟨before, words, reading, split, verboses, all, task⟩ := of_readFrom rfl accepted
  refine ⟨before, words, split, verboses, fun lookup => ?_⟩
  have effective := effective_of_all all task (Settings.ofEnvironment lookup).1
  have within := (Settings.configures_ofEnvironment lookup).within .resolveTimeout _ rfl
  exact ⟨effective, effective.one_le_batchSize, within.1⟩

/-- Of five variables one is overridden, one cannot be read, one is padded, and two are not set. -/
def sampleLookup : String → Option String
  | "SIGDB_BATCH_SIZE" => some "7"
  | "SIGDB_TIME_LIMIT_SECS" => some "soon"
  | "SIGDB_INDEX_URL" => some " u "
  | _ => none

/-- The options of a run that is given a batch size. -/
def sampleOptions : RunOptions where
  packages := "packages.txt"
  output := "lib_db"
  checkpoint := "progress.txt"
  batchSize := some 5
  timeLimitSecs := none
  method := .index
  installer := "pip"
  indexUrl := none

/-- One of the variables and nothing else. -/
def addressLookup : String → Option String
  | "SIGDB_INDEX_URL" => some " u "
  | _ => none

theorem effective_settings_of_sampleLookup :
    let settings := (Settings.ofEnvironment sampleLookup).1
    let warnings := (Settings.ofEnvironment sampleLookup).2
    Invocation.ofArguments ["-v", "run", "--batch-size", "+5"] = .ok ⟨true, .run sampleOptions⟩ ∧
      sampleOptions.effectiveBatchSize settings = 5 ∧
      sampleOptions.effectiveTimeLimitSecs settings = 3300 ∧
      sampleOptions.effectiveIndexUrl settings = "u" ∧
      warnings.filter (·.about = "SIGDB_TIME_LIMIT_SECS") =
        [.invalid "SIGDB_TIME_LIMIT_SECS" "soon" 3300] ∧
      settings.get .indexUrl = (Settings.ofEnvironment addressLookup).1.get .indexUrl := by
  intro settings warnings
  obtain ⟨configures, same, runs⟩ := effective_settings
  have accepted : Invocation.ofArguments ["-v", "run", "--batch-size", "+5"] =
      .ok ⟨true, .run sampleOptions⟩ := by rfl
  obtain ⟨before, words, split, verboses, goes⟩ := runs _ _ _ accepted
  obtain ⟨effective, -, -⟩ := goes sampleLookup
  obtain rfl : words = ["--batch-size", "+5"] := by
    rcases before with _ | ⟨first, _ | ⟨second, rest⟩⟩
    · simp [Subcommand.name] at split
    · exact (List.cons.inj (List.cons.inj split).2).2.symm
    · obtain rfl : "run" = second := (List.cons.inj (List.cons.inj split).2).1
      simp at verboses
  obtain ⟨batchSize, timeLimit, indexUrl⟩ := overriding_run
  have flags : Flags Subcommand.run.shape ["--batch-size", "+5"] [("batch-size", "+5")] :=
    .apart batchSize rfl (.inr (by decide)) .done
  have gives {name text : String} {kind : ValueKind}
      (known : taking name kind ∈ Subcommand.run.shape.options) :
      Gives ["--batch-size", "+5"] name text ↔ (name, text) ∈ [("batch-size", "+5")] := by
    have told : Gives _ (taking name kind).name text ↔ _ := flags.gives_iff onlyFlags_run known rfl
    exact told
  have other {name : String} {kind : ValueKind}
      (known : taking name kind ∈ Subcommand.run.shape.options) (differs : name ≠ "batch-size")
      (text : String) : ¬Gives ["--batch-size", "+5"] name text := by
    simp [gives known, differs]
  have refused : Settings.Refuses sampleLookup .timeLimit "soon" :=
    ⟨rfl, Settings.read?_eq_none_iff.mp (by decide)⟩
  refine ⟨accepted, ?_, ?_, ?_, ?_, ?_⟩
  · have accepts := effective.batchSize.given "+5" ((gives batchSize).mpr (by simp))
    have five : Settings.read? .batchSize "+5" = some (.number 5) := by rfl
    rw [Settings.read?_eq_some_iff.mpr accepts] at five
    exact Settings.Value.number.inj (Option.some.inj five)
  · have usual := (configures sampleLookup).refused .timeLimit "soon" refused
    rw [effective.timeLimit.missing (other timeLimit (by decide))]
    exact Settings.Value.number.inj usual
  · have trimmed := (configures sampleLookup).taken .indexUrl " u " (.text "u") rfl
      (Settings.read?_eq_some_iff.mp rfl)
    rw [effective.indexUrl.missing (other indexUrl (by decide))]
    exact Settings.Value.text.inj trimmed
  · exact (configures sampleLookup).warned .timeLimit "soon" refused
  · exact same sampleLookup _ .indexUrl rfl

end ApiInventory.Command
