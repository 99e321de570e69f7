import ApiInventory.Proofs.Json.RoundTrip
import ApiInventory.Symbols.Json
import Mathlib.Data.List.Forall2

/-!
# Tables that are read as they were written

The value a table is written as holds no numbers, and all its strings have texts, so it is read
back as it is (`SymbolTable.parse?_pretty`). What is left to show is that the value gives the
table again. The entries of a map are in ascending order, and so each of them goes to the end of
those before it when they are bound one after the other.
-/

namespace ApiInventory

theorem mapM_eq_some_iff {β γ : Type} {read : β → Option γ} {xs : List β} {ys : List γ} :
    xs.mapM read = some ys ↔ List.Forall₂ (fun x y => read x = some y) xs ys := by
  induction xs generalizing ys with
  | nil => simp [eq_comm]
  | cons x xs ih =>
      rw [List.mapM_cons, List.forall₂_cons_left_iff]
      cases first : read x with
      | none => simp
      | some y =>
          cases rest : xs.mapM read with
          | none => simp [← ih, rest]
          | some ys => simp [← ih, rest, eq_comm]

theorem mapM_map_of_forall {α β : Type} {read : β → Option α} {write : α → β} {xs : List α}
    (back : ∀ x ∈ xs, read (write x) = some x) : (xs.map write).mapM read = some xs := by
  rw [mapM_eq_some_iff, List.forall₂_map_left_iff]
  exact List.forall₂_same.mpr back

namespace NameMap

variable {α : Type}

theorem updateEntries_append {name : String} {f : Option α → α} {es : List (String × α)}
    (above : ∀ e ∈ es, e.1 < name) : updateEntries name f es = es ++ [(name, f none)] := by
  induction es with
  | nil => rfl
  | cons e es ih =>
      have above_head : e.1 < name := above e (by simp)
      have ih := ih fun x member => above x (List.mem_cons_of_mem e member)
      have notBelow : ¬name < e.1 := String.lt_asymm above_head
      have differ : name ≠ e.1 := fun same => String.lt_irrefl name (same ▸ above_head)
      rw [updateEntries, if_neg notBelow, if_neg differ, ih, List.cons_append]

theorem foldl_put_entries (bindings : List (String × α)) (m : NameMap α)
    (ascending : (m.entries ++ bindings).Pairwise fun a b => a.1 < b.1) :
    (bindings.foldl (fun m e => m.put e.1 e.2) m).entries = m.entries ++ bindings := by
  induction bindings generalizing m with
  | nil => rw [List.foldl_nil, List.append_nil]
  | cons e bindings ih =>
      have above : ∀ x ∈ m.entries, x.1 < e.1 := fun x member =>
        (List.pairwise_append.mp ascending).2.2 x member e (by simp)
      have put : (m.put e.1 e.2).entries = m.entries ++ [e] := updateEntries_append above
      rw [List.foldl_cons, ih, put, List.append_assoc, List.singleton_append]
      rw [put, List.append_assoc, List.singleton_append]
      exact ascending

/-- A map is the map of its entries. -/
theorem ofList_entries (m : NameMap α) : ofList m.entries = m :=
  ext_entries (foldl_put_entries m.entries empty m.ascending)

theorem ofJson?_toJson {read : Json → Option α} {write : α → Json} (m : NameMap α)
    (back : ∀ e ∈ m.entries, read (write e.2) = some e.2) :
    NameMap.ofJson? read (m.toJson write) = some m := by
  rw [NameMap.toJson, Json.ofMembers, List.map_map, NameMap.ofJson?, mapM_map_of_forall,
    Option.map_some, ofList_entries]
  intro e member
  simp only [Function.comp_apply, back e member]

theorem plain_toJson {write : α → Json} (m : NameMap α)
    (plain : ∀ e ∈ m.entries, (write e.2).Plain) : (m.toJson write).Plain := by
  refine .object ?_ ?_
  all_goals
    intro member found
    rw [List.map_map] at found
    obtain ⟨e, inside, rfl⟩ := List.mem_map.mp found
  · rfl
  · exact plain e inside

end NameMap

theorem asList?_texts (items : List String) :
    (Json.texts items).asList? Json.asText? = some items :=
  mapM_map_of_forall fun _ _ => rfl

theorem plain_texts (items : List String) : (Json.texts items).Plain := by
  refine .array fun v member => ?_
  obtain ⟨text, -, rfl⟩ := List.mem_map.mp member
  exact .string text

namespace Member

theorem ofJson?_toJson (m : Member) : ofJson? m.toJson = some m := by
  cases m with
  | field => rfl
  | method parameters => exact congrArg (Option.map Member.method) (asList?_texts parameters)

theorem plain_toJson (m : Member) : m.toJson.Plain := by
  cases m with
  | field => exact .null
  | method parameters => exact plain_texts parameters

end Member

namespace Signature

theorem ofJson?_toJson (signature : Signature) : ofJson? signature.toJson = some signature := by
  match signature with
  | .function parameters =>
      exact congrArg (Option.map Signature.function) (asList?_texts parameters)
  | .classType members =>
      exact congrArg (Option.map Signature.classType)
        (members.ofJson?_toJson fun e _ => e.2.ofJson?_toJson)
  | .variable => rfl

theorem plain_toJson (signature : Signature) : signature.toJson.Plain := by
  match signature with
  | .function parameters => exact plain_texts parameters
  | .classType members => exact members.plain_toJson fun e _ => e.2.plain_toJson
  | .variable => exact .null

end Signature

namespace SymbolTable

theorem ofJson?_toJson (t : SymbolTable) : ofJson? (toJson t) = some t :=
  NameMap.ofJson?_toJson t fun e _ => e.2.ofJson?_toJson

theorem plain_toJson (t : SymbolTable) : (toJson t).Plain :=
  NameMap.plain_toJson t fun e _ => e.2.plain_toJson

/-- The text of a table is that of an object. -/
theorem toList_pretty (t : SymbolTable) : ∃ rest, t.pretty.toList = '\x7b' :: rest := by
  unfold pretty toJson NameMap.toJson Json.ofMembers Json.pretty
  rw [Json.write, String.toList_ofList, Json.bracketed.eq_def]
  split
  · exact ⟨_, rfl⟩
  · exact ⟨_, rfl⟩

theorem parse?_eq_some {text : String} {t : SymbolTable}
    (read : Json.ofText? text = some t.toJson) :
    parse? text = some t := by
  rw [parse?, read]
  exact t.ofJson?_toJson

/-- A table is read from the text that a record of it has. -/
theorem parse?_pretty (t : SymbolTable) : parse? (t.pretty ++ "\n") = some t :=
  parse?_eq_some (Json.ofText?_pretty t.plain_toJson (by simp [Json.Blanks, Json.isSpace]))

end SymbolTable

end ApiInventory
