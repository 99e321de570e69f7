import ApiInventory.Proofs.Symbols.NameMap
import ApiInventory.Proofs.Symbols.RoundTrip
import Mathlib

/-!
# The texts that are tables

The shape of a value says whether it is a table (`SymbolTable.Shape`). All values of an object
count for this, also those of a key that comes again with another value. What the table binds,
however, is said by the last value of each key (`SymbolTable.IsOf`). Both are built of the same
two pieces, once for the table and once for each class in it: `IsObjectOf` asks something of all
values of an object, and `NameMap.IsOf` binds its keys.

`Reads` ties the pieces to the functions that read them, so that it is enough to look at one level
at a time. In front of this stands the grammar of JSON; a document is also held to a range of
numbers and to a depth, but a table has no numbers, and three levels at most
(`SymbolTable.parse?_iff_isDocument`).

Members of objects may change places unless they have the same key (`Json.Reordered`). No reader
of tables takes notice.
-/

namespace ApiInventory

variable {α : Type}

/-! ## Lists that are read item by item -/

theorem isSome_mapM_iff {β γ : Type} {read : β → Option γ} {xs : List β} :
    (xs.mapM read).isSome ↔ ∀ x ∈ xs, (read x).isSome := by
  induction xs with
  | nil => simp
  | cons x xs ih =>
      rw [List.mapM_cons, List.forall_mem_cons, ← ih]
      cases read x with
      | none => simp
      | some y => cases xs.mapM read <;> simp

/-! ## Shapes -/

/-- An object whose keys have texts and whose values all have a shape. -/
def IsObjectOf (Shape : Json → Prop) (v : Json) : Prop :=
  ∃ members, v = .object members ∧ ∀ m ∈ members, m.1.isSome ∧ Shape m.2

/-- The value of a key, the last one where it is repeated. -/
def lastValue? (members : List (Option String × Json)) (key : String) : Option Json :=
  members.reverse.lookup (some key)

/-- A map binds each key of an object to what the last value of the key is. -/
def NameMap.IsOf (IsOf : Json → α → Prop) (v : Json) (m : NameMap α) : Prop :=
  ∃ members, v = .object members ∧
    ∀ key x, m.get? key = some x ↔ ∃ w, lastValue? members key = some w ∧ IsOf w x

namespace Member

inductive Shape : Json → Prop
  | field : Shape .null
  | method (parameters : List String) : Shape (Json.texts parameters)

inductive IsOf : Json → Member → Prop
  | field : IsOf .null .field
  | method (parameters : List String) : IsOf (Json.texts parameters) (.method parameters)

end Member

namespace Signature

inductive Shape : Json → Prop
  | variable : Shape .null
  | function (parameters : List String) : Shape (Json.texts parameters)
  | classType {v : Json} (members : IsObjectOf Member.Shape v) : Shape v

inductive IsOf : Json → Signature → Prop
  | variable : IsOf .null .variable
  | function (parameters : List String) : IsOf (Json.texts parameters) (.function parameters)
  | classType {v : Json} {members : NameMap Member} (binds : NameMap.IsOf Member.IsOf v members) :
      IsOf v (.classType members)

end Signature

namespace SymbolTable

/-- An object whose values are null, arrays of texts, or objects whose values are null or arrays
of texts. -/
def Shape (v : Json) : Prop := IsObjectOf Signature.Shape v

/-- What a table of the right shape binds. -/
def IsOf (v : Json) (t : SymbolTable) : Prop := NameMap.IsOf Signature.IsOf v t

end SymbolTable

/-! ## What is read off a shape -/

/-- A function reads the values of a shape, and reads off them what they are. -/
structure Reads (read : Json → Option α) (Shape : Json → Prop) (IsOf : Json → α → Prop) :
    Prop where
  succeeds : ∀ v, (read v).isSome ↔ Shape v
  gives : ∀ v x, read v = some x ↔ Shape v ∧ IsOf v x

theorem asList?_asText?_eq_some_iff {v : Json} {items : List String} :
    v.asList? Json.asText? = some items ↔ v = Json.texts items := by
  cases v with
  | array vs =>
      have text (w : Json) (s : String) : w.asText? = some s ↔ w = Json.text s := by
        cases w <;> simp [Json.asText?, Json.text]
      rw [Json.asList?, mapM_eq_some_iff, Json.texts, Json.array.injEq]
      simp only [text]
      rw [← List.forall₂_map_right_iff (R := (· = ·)), List.forall₂_eq_eq_eq]
  | _ => simp [Json.asList?, Json.texts]

namespace NameMap

variable {read : Json → Option α} {Shape : Json → Prop} {IsOf : Json → α → Prop}

/-- What a member of an object binds. -/
def binding? (read : Json → Option α) (m : Option String × Json) : Option (String × α) :=
  match m.1, read m.2 with
  | some k, some x => some (k, x)
  | _, _ => none

theorem ofJson?_object (members : List (Option String × Json)) :
    ofJson? read (.object members) = (members.mapM (binding? read)).map ofList := rfl

theorem binding?_eq_some_iff {m : Option String × Json} {e : String × α} :
    binding? read m = some e ↔ m.1 = some e.1 ∧ read m.2 = some e.2 := by
  obtain ⟨_ | key, v⟩ := m
  · simp [binding?]
  · cases found : read v <;> simp [binding?, found, Prod.ext_iff]

theorem isSome_binding?_iff {m : Option String × Json} :
    (binding? read m).isSome ↔ m.1.isSome ∧ (read m.2).isSome := by
  obtain ⟨_ | key, v⟩ := m
  · simp [binding?]
  · cases found : read v <;> simp [binding?, found]

/-- The last value of a key is read as the last binding of it. -/
theorem map_lastValue? {members : List (Option String × Json)} {bindings : List (String × α)}
    (bound : members.mapM (binding? read) = some bindings) (key : String) :
    (lastValue? members key).map read = (bindings.reverse.lookup key).map some := by
  unfold lastValue?
  induction mapM_eq_some_iff.mp bound with
  | nil => rfl
  | @cons m e members bindings first rest ih =>
      obtain ⟨named, gives⟩ := binding?_eq_some_iff.mp first
      -- Behind the others, the first member counts only for a key that none of them has.
      have ih := ih (mapM_eq_some_iff.mpr rest)
      have last : ([m].lookup (some key)).map read = ([e].lookup key).map some := by
        obtain ⟨_, v⟩ := m
        obtain ⟨name, x⟩ := e
        cases named
        by_cases here : key = name
        · simp [here, gives]
        · have other : (key == name) = false := beq_eq_false_iff_ne.mpr here
          simp [List.lookup_cons, other]
      rw [List.reverse_cons, List.reverse_cons, List.lookup_append, List.lookup_append,
        Option.map_or, Option.map_or, ih, last]

theorem exists_mem_of_lastValue? {members : List (Option String × Json)} {key : String} {v : Json}
    (last : lastValue? members key = some v) : ∃ m ∈ members, m.2 = v := by
  obtain ⟨behind, before, found, -⟩ := List.lookup_eq_some_iff.mp last
  refine ⟨(some key, v), ?_, rfl⟩
  rw [← List.mem_reverse, found]
  simp

theorem isOf_ofList (reads : Reads read Shape IsOf) {members : List (Option String × Json)}
    {bindings : List (String × α)} (bound : members.mapM (binding? read) = some bindings)
    (shapes : ∀ m ∈ members, Shape m.2) :
    NameMap.IsOf IsOf (.object members) (ofList bindings) := by
  refine ⟨members, rfl, fun key x => ?_⟩
  have same := map_lastValue? bound key
  rw [get?_ofList]
  constructor
  · intro found
    rw [found, Option.map_some, Option.map_eq_some_iff] at same
    obtain ⟨w, last, gives⟩ := same
    exact ⟨w, last, ((reads.gives w x).mp gives).2⟩
  · rintro ⟨w, last, is⟩
    obtain ⟨m, inside, rfl⟩ := exists_mem_of_lastValue? last
    have gives := (reads.gives m.2 x).mpr ⟨shapes m inside, is⟩
    rw [last, Option.map_some, gives] at same
    cases found : bindings.reverse.lookup key with
    | none => simp [found] at same
    | some y => simpa [found, eq_comm] using same

/-- What an object binds is one map. -/
theorem IsOf.unique {v : Json} {m n : NameMap α} (is : NameMap.IsOf IsOf v m)
    (is' : NameMap.IsOf IsOf v n) : m = n := by
  obtain ⟨members, rfl, binds⟩ := is
  obtain ⟨members', same, binds'⟩ := is'
  cases same
  apply ext_get?
  intro key
  apply Option.ext
  intro x
  rw [binds, binds']

/-- An object is read as its values are. -/
theorem reads (reads : Reads read Shape IsOf) :
    Reads (ofJson? read) (IsObjectOf Shape) (NameMap.IsOf IsOf) := by
  have succeeds (v : Json) : (ofJson? read v).isSome ↔ IsObjectOf Shape v := by
    cases v with
    | object members =>
        rw [ofJson?_object, Option.isSome_map, isSome_mapM_iff]
        simp only [isSome_binding?_iff, reads.succeeds, IsObjectOf, Json.object.injEq,
          exists_eq_left']
    | _ => simp [ofJson?, IsObjectOf]
  have is {v : Json} {m : NameMap α} (read : ofJson? read v = some m) : NameMap.IsOf IsOf v m := by
    obtain ⟨members, rfl, shapes⟩ := (succeeds v).mp (Option.isSome_of_eq_some read)
    rw [ofJson?_object, Option.map_eq_some_iff] at read
    obtain ⟨bindings, bound, rfl⟩ := read
    exact isOf_ofList reads bound fun m inside => (shapes m inside).2
  refine ⟨succeeds, fun v m => ⟨fun read => ⟨?_, is read⟩, ?_⟩⟩
  · exact (succeeds v).mp (Option.isSome_of_eq_some read)
  · rintro ⟨shape, isOf⟩
    obtain ⟨n, read⟩ := Option.isSome_iff_exists.mp ((succeeds v).mpr shape)
    rw [read, (is read).unique isOf]

end NameMap

namespace Member

theorem ofJson?_eq_some_iff {v : Json} {m : Member} : ofJson? v = some m ↔ IsOf v m := by
  constructor
  · intro read
    unfold ofJson? at read
    split at read
    · cases read
      exact .field
    · obtain ⟨parameters, found, rfl⟩ := Option.map_eq_some_iff.mp read
      obtain rfl := asList?_asText?_eq_some_iff.mp found
      exact .method parameters
  · intro is
    cases is with
    | field => rfl
    | method parameters => exact (Member.method parameters).ofJson?_toJson

theorem reads : Reads ofJson? Shape IsOf where
  succeeds v := by
    rw [Option.isSome_iff_exists]
    constructor
    · rintro ⟨m, read⟩
      cases ofJson?_eq_some_iff.mp read with
      | field => exact .field
      | method parameters => exact .method parameters
    · rintro (_ | parameters)
      · exact ⟨.field, rfl⟩
      · exact ⟨_, (Member.method parameters).ofJson?_toJson⟩
  gives v m := by
    rw [ofJson?_eq_some_iff]
    constructor
    · intro is
      cases is with
      | field => exact ⟨.field, .field⟩
      | method parameters => exact ⟨.method parameters, .method parameters⟩
    · exact And.right

end Member

namespace Signature

theorem ofJson?_object (members : List (Option String × Json)) :
    ofJson? (.object members) =
      (NameMap.ofJson? Member.ofJson? (.object members)).map .classType := rfl

theorem ofJson?_texts (parameters : List String) :
    ofJson? (Json.texts parameters) = some (.function parameters) :=
  (Signature.function parameters).ofJson?_toJson

theorem shape_object_iff {members : List (Option String × Json)} :
    Shape (.object members) ↔ IsObjectOf Member.Shape (.object members) := by
  constructor
  · rintro (_ | _ | inside)
    exact inside
  · exact .classType

theorem succeeds (v : Json) : (ofJson? v).isSome ↔ Shape v := by
  constructor
  · intro read
    match v with
    | .null => exact .variable
    | .array items =>
        rw [ofJson?, Option.isSome_map, Option.isSome_iff_exists] at read
        obtain ⟨parameters, found⟩ := read
        rw [asList?_asText?_eq_some_iff.mp found]
        exact .function parameters
    | .object members =>
        rw [ofJson?_object, Option.isSome_map, (NameMap.reads Member.reads).succeeds] at read
        exact .classType read
  · intro shape
    cases shape with
    | «variable» => rfl
    | function parameters => rw [ofJson?_texts, Option.isSome_some]
    | classType inside =>
        have read := ((NameMap.reads Member.reads).succeeds v).mpr inside
        obtain ⟨members, rfl, -⟩ := inside
        rwa [ofJson?_object, Option.isSome_map]

theorem reads : Reads ofJson? Shape IsOf where
  succeeds := succeeds
  gives v signature := by
    constructor
    · intro read
      have shape := (succeeds v).mp (Option.isSome_of_eq_some read)
      refine ⟨shape, ?_⟩
      cases shape with
      | «variable» =>
          cases read
          exact .variable
      | function parameters =>
          rw [ofJson?_texts] at read
          cases read
          exact .function parameters
      | classType inside =>
          obtain ⟨members, rfl, -⟩ := inside
          rw [ofJson?_object] at read
          obtain ⟨m, found, rfl⟩ := Option.map_eq_some_iff.mp read
          exact .classType (((NameMap.reads Member.reads).gives _ m).mp found).2
    · rintro ⟨shape, is⟩
      cases is with
      | «variable» => rfl
      | function parameters => exact ofJson?_texts parameters
      | @classType _ m binds =>
          have is := binds
          obtain ⟨members, rfl, -⟩ := binds
          have found := ((NameMap.reads Member.reads).gives _ m).mpr ⟨shape_object_iff.mp shape, is⟩
          rw [ofJson?_object, found, Option.map_some]

end Signature

namespace SymbolTable

theorem reads : Reads ofJson? Shape IsOf := NameMap.reads Signature.reads

end SymbolTable

/-! ## Documents -/

namespace Json

/-- Arrays and objects may stand inside one another to this depth. -/
def nestingLimit : Nat := 127

/-- A value has its numbers in a range, and is not nested deeper than a limit. -/
inductive Fits (inRange : String → Prop) : Nat → Json → Prop
  | null {limit : Nat} : Fits inRange limit .null
  | bool {limit : Nat} (value : Bool) : Fits inRange limit (.bool value)
  | number {limit : Nat} {spelling : String} (within : inRange spelling) :
      Fits inRange limit (.number spelling)
  | string {limit : Nat} (text : Option String) : Fits inRange limit (.string text)
  | array {limit : Nat} {items : List Json} (each : ∀ v ∈ items, Fits inRange limit v) :
      Fits inRange (limit + 1) (.array items)
  | object {limit : Nat} {members : List (Option String × Json)}
      (each : ∀ m ∈ members, Fits inRange limit m.2) : Fits inRange (limit + 1) (.object members)

/-- A text is one strict document: a value with nothing but blanks around it. -/
structure IsDocument (inRange : String → Prop) (text : String) (v : Json) : Prop where
  spelled : SpellsPadded text.toList v
  fits : Fits inRange nestingLimit v

variable {inRange : String → Prop}

theorem texted_texts (items : List String) : Texted (texts items) :=
  ((plain_texts items).spells compactStyle_isBlank 0).texted

theorem fits_texts (items : List String) (limit : Nat) :
    Fits inRange (limit + 1) (texts items) := by
  apply Fits.array
  intro v inside
  obtain ⟨text, -, rfl⟩ := List.mem_map.mp inside
  exact .string (some text)

end Json

theorem IsObjectOf.texted {Shape : Json → Prop} {v : Json} (object : IsObjectOf Shape v)
    (each : ∀ w, Shape w → Json.Texted w) : v.Texted := by
  obtain ⟨members, rfl, shapes⟩ := object
  exact .object (fun m inside => (shapes m inside).1) fun m inside => each _ (shapes m inside).2

theorem IsObjectOf.fits {Shape : Json → Prop} {v : Json} {inRange : String → Prop} {limit : Nat}
    (object : IsObjectOf Shape v) (each : ∀ w, Shape w → Json.Fits inRange limit w) :
    v.Fits inRange (limit + 1) := by
  obtain ⟨members, rfl, shapes⟩ := object
  exact .object fun m inside => each _ (shapes m inside).2

namespace Member

theorem Shape.texted {v : Json} (shape : Shape v) : v.Texted := by
  cases shape with
  | field => exact .null
  | method parameters => exact Json.texted_texts parameters

theorem Shape.fits {v : Json} (shape : Shape v) (inRange : String → Prop) (limit : Nat) :
    v.Fits inRange (limit + 1) := by
  cases shape with
  | field => exact .null
  | method parameters => exact Json.fits_texts parameters limit

end Member

namespace Signature

theorem Shape.texted {v : Json} (shape : Shape v) : v.Texted := by
  cases shape with
  | «variable» => exact .null
  | function parameters => exact Json.texted_texts parameters
  | classType inside => exact inside.texted fun _ => Member.Shape.texted

theorem Shape.fits {v : Json} (shape : Shape v) (inRange : String → Prop) (limit : Nat) :
    v.Fits inRange (limit + 2) := by
  cases shape with
  | «variable» => exact .null
  | function parameters => exact Json.fits_texts parameters (limit + 1)
  | classType inside => exact inside.fits fun _ shape => shape.fits inRange limit

end Signature

/-! ## Members that change places -/

/-- Members of objects change places, anywhere in a value, with others that have other keys. -/
inductive Json.Reordered : Json → Json → Prop
  | refl (v : Json) : Reordered v v
  | swap (before behind : List (Option String × Json)) {a b : Option String × Json}
      (differ : a.1 ≠ b.1) :
      Reordered (.object (before ++ a :: b :: behind)) (.object (before ++ b :: a :: behind))
  | inMember (before behind : List (Option String × Json)) (key : Option String) {v w : Json}
      (inside : Reordered v w) :
      Reordered (.object (before ++ (key, v) :: behind)) (.object (before ++ (key, w) :: behind))
  | inItem (before behind : List Json) {v w : Json} (inside : Reordered v w) :
      Reordered (.array (before ++ v :: behind)) (.array (before ++ w :: behind))
  | trans {u v w : Json} (first : Reordered u v) (second : Reordered v w) : Reordered u w

/-- A function gives the same for values whose members have changed places. -/
def IgnoresOrder {β : Type} (read : Json → β) : Prop := ∀ v w, v.Reordered w → read v = read w

namespace Json

theorem ignoresOrder_asText? : IgnoresOrder asText? := by
  intro v w same
  induction same with
  | refl | swap | inMember | inItem => rfl
  | trans _ _ ih ih' => exact ih.trans ih'

theorem ignoresOrder_asList? {item : Json → Option α} (ignores : IgnoresOrder item) :
    IgnoresOrder (asList? item) := by
  intro v w same
  induction same with
  | refl | swap | inMember => rfl
  | inItem before behind inside _ =>
      simp only [asList?, List.mapM_append, List.mapM_cons, ignores _ _ inside]
  | trans _ _ ih ih' => exact ih.trans ih'

end Json

namespace NameMap

variable {read : Json → Option α}

/-- Bindings of two keys change places where their members do. -/
theorem ofJson?_swap (before behind : List (Option String × Json)) {a b : Option String × Json}
    (differ : a.1 ≠ b.1) :
    ofJson? read (.object (before ++ a :: b :: behind)) =
      ofJson? read (.object (before ++ b :: a :: behind)) := by
  simp only [ofJson?_object, List.mapM_append, List.mapM_cons]
  cases first : binding? read a with
  | none => cases binding? read b <;> simp
  | some x =>
      cases second : binding? read b with
      | none => simp
      | some y =>
          have differ : x.1 ≠ y.1 := by
            intro same
            apply differ
            rw [(binding?_eq_some_iff.mp first).1, (binding?_eq_some_iff.mp second).1, same]
          cases before.mapM (binding? read) with
          | none => simp
          | some xs => cases behind.mapM (binding? read) <;> simp [ofList_swap _ _ differ]

theorem ignoresOrder_ofJson? (ignores : IgnoresOrder read) : IgnoresOrder (ofJson? read) := by
  intro v w same
  induction same with
  | refl | inItem => rfl
  | swap before behind differ => exact ofJson?_swap before behind differ
  | inMember before behind key inside _ =>
      simp only [ofJson?_object, List.mapM_append, List.mapM_cons, binding?, ignores _ _ inside]
  | trans _ _ ih ih' => exact ih.trans ih'

end NameMap

theorem Member.ignoresOrder_ofJson? : IgnoresOrder ofJson? := by
  intro v w same
  induction same with
  | refl | swap | inMember => rfl
  | inItem before behind inside _ =>
      exact congrArg (Option.map Member.method)
        (Json.ignoresOrder_asList? Json.ignoresOrder_asText? _ _ (.inItem before behind inside))
  | trans _ _ ih ih' => exact ih.trans ih'

theorem Signature.ignoresOrder_ofJson? : IgnoresOrder ofJson? := by
  intro v w same
  have members := NameMap.ignoresOrder_ofJson? Member.ignoresOrder_ofJson?
  induction same with
  | refl => rfl
  | swap before behind differ =>
      exact congrArg (Option.map Signature.classType) (members _ _ (.swap before behind differ))
  | inMember before behind key inside _ =>
      exact congrArg (Option.map Signature.classType)
        (members _ _ (.inMember before behind key inside))
  | inItem before behind inside _ =>
      exact congrArg (Option.map Signature.function)
        (Json.ignoresOrder_asList? Json.ignoresOrder_asText? _ _ (.inItem before behind inside))
  | trans _ _ ih ih' => exact ih.trans ih'

namespace SymbolTable

theorem ignoresOrder_ofJson? : IgnoresOrder ofJson? :=
  NameMap.ignoresOrder_ofJson? Signature.ignoresOrder_ofJson?

/-! ## Texts -/

variable {inRange : String → Prop}

theorem ofText?_of_isDocument {text : String} {v : Json}
    (document : Json.IsDocument inRange text v) : Json.ofText? text = some v :=
  (Json.ofText?_iff_spellsPadded.mpr document.spelled).1

/-- The value of a table is a document whatever the range of numbers. -/
theorem isDocument_of_shape {text : String} {v : Json} (read : Json.ofText? text = some v)
    (shape : Shape v) : Json.IsDocument inRange text v where
  spelled := by
    apply Json.ofText?_iff_spellsPadded.mp
    exact ⟨read, IsObjectOf.texted shape fun _ => Signature.Shape.texted⟩
  fits := IsObjectOf.fits shape fun _ shape => shape.fits inRange 124

theorem parse?_eq_some_iff {text : String} {t : SymbolTable} :
    parse? text = some t ↔ ∃ v, Json.IsDocument inRange text v ∧ Shape v ∧ IsOf v t := by
  rw [parse?, Option.bind_eq_some_iff]
  constructor
  · rintro ⟨v, read, found⟩
    obtain ⟨shape, is⟩ := (reads.gives v t).mp found
    exact ⟨v, isDocument_of_shape read shape, shape, is⟩
  · rintro ⟨v, document, shape, is⟩
    exact ⟨v, ofText?_of_isDocument document, (reads.gives v t).mpr ⟨shape, is⟩⟩

theorem isSome_parse?_iff {text : String} :
    (parse? text).isSome ↔ ∃ v, Json.IsDocument inRange text v ∧ Shape v := by
  constructor
  · intro found
    obtain ⟨t, found⟩ := Option.isSome_iff_exists.mp found
    obtain ⟨v, document, shape, -⟩ := parse?_eq_some_iff.mp found
    exact ⟨v, document, shape⟩
  · rintro ⟨v, document, shape⟩
    rw [parse?, ofText?_of_isDocument document]
    exact (reads.succeeds v).mpr shape

theorem parse?_of_reordered {text text' : String} {v v' : Json}
    (document : Json.IsDocument inRange text v) (document' : Json.IsDocument inRange text' v')
    (reordered : v.Reordered v') : parse? text = parse? text' := by
  rw [parse?, parse?, ofText?_of_isDocument document, ofText?_of_isDocument document']
  exact ignoresOrder_ofJson? v v' reordered

/-- A table is read from each of the texts that are written for it. -/
theorem parse?_encode {encode : SymbolTable → String} (known : encode = pretty ∨ encode = compact)
    (t : SymbolTable) : parse? (encode t) = some t := by
  rcases known with rfl | rfl
  · have read : Json.ofText? (t.pretty ++ "") = some t.toJson :=
      Json.ofText?_pretty t.plain_toJson Json.blanks_nil
    rw [String.append_empty] at read
    exact parse?_eq_some read
  · exact parse?_eq_some (Json.ofText?_compact t.plain_toJson)

/-- A text is a table if and only if it is one document of the right shape. The table binds each
key to what the last value of the key is, and so it is the same for all texts of a value, and for
values whose members have changed places. What is written for a table stays as it is when it is
read and written again. -/
theorem parse?_iff_isDocument (inRange : String → Prop) :
    (∀ text, (parse? text).isSome ↔ ∃ v, Json.IsDocument inRange text v ∧ Shape v) ∧
    (∀ text t, parse? text = some t ↔
      ∃ v, Json.IsDocument inRange text v ∧ Shape v ∧ IsOf v t) ∧
    (∀ text text' v v', Json.IsDocument inRange text v → Json.IsDocument inRange text' v' →
      v.Reordered v' → parse? text = parse? text') ∧
    ∀ encode, encode = pretty ∨ encode = compact → ∀ text,
      (((parse? text).map encode).bind parse?).map encode = (parse? text).map encode := by
  refine ⟨fun _ => isSome_parse?_iff, fun _ _ => parse?_eq_some_iff, ?_, ?_⟩
  · intro text text' v v' document document' reordered
    exact parse?_of_reordered document document' reordered
  · intro encode known text
    cases parse? text with
    | none => rfl
    | some t => rw [Option.map_some, Option.bind_some, parse?_encode known, Option.map_some]

/-- A key that is repeated, and a class that has no members. -/
def sampleText : String :=
  "\x7b\x22a\x22:null,\x22a\x22:[\x22x\x22],\x22b\x22:\x7b\x7d\x7d"

/-- The same with blanks and escapes, and with the class in front. -/
def otherSampleText : String :=
  " \x7b \x22b\x22:\x7b \x7d,\n\x22\\u0061\x22:null , \x22a\x22 : [\x22\\u0078\x22]\x7d\n"

theorem parse?_iff_isDocument_of_sampleText :
    (parse? sampleText).isSome ∧ parse? sampleText = parse? otherSampleText := by
  obtain ⟨succeeds, -, unchanged, -⟩ := parse?_iff_isDocument fun _ => True
  have read : Json.ofText? sampleText = some (.object
      [(some "a", .null), (some "a", Json.texts ["x"]), (some "b", .object [])]) := by cbv
  have read' : Json.ofText? otherSampleText = some (.object
      [(some "b", .object []), (some "a", .null), (some "a", Json.texts ["x"])]) := by cbv
  have document : Json.IsDocument (fun _ => True) sampleText _ :=
    isDocument_of_shape read ((reads.succeeds _).mp rfl)
  have document' : Json.IsDocument (fun _ => True) otherSampleText _ :=
    isDocument_of_shape read' ((reads.succeeds _).mp rfl)
  constructor
  · exact (succeeds _).mpr ⟨_, document, (reads.succeeds _).mp rfl⟩
  · apply unchanged _ _ _ _ document document'
    exact .trans (.swap [_] [] (by decide)) (.swap [] [_] (by decide))

end SymbolTable

end ApiInventory
