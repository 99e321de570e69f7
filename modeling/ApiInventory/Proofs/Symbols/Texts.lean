import ApiInventory.Batch.RecordStore
import ApiInventory.Proofs.Symbols.RoundTrip
import ApiInventory.Proofs.Text.ByteOrder
import ApiInventory.Proofs.Text.Decimal

/-!
# The texts of a table

A table has three texts: the pretty one, the compact one, and the one that a record of it holds.
Each of them is read back as the table and as no other, and says its names in the order of their
bytes (`SymbolTable.texts_read_back`). The order is that of the object a text stands for, where a
key that is repeated is there twice and in its places.
-/

namespace ApiInventory

/-- The keys of an object are the names of a map, in strictly ascending order of their bytes; so
none of them is there twice. -/
structure KeysAscend {α : Type} (members : List (Option String × Json)) (m : NameMap α) :
    Prop where
  keys : members.map Prod.fst = m.names.map some
  ascending : m.names.Pairwise fun a b => Text.bytes a < Text.bytes b

/-- A text that is read as a table, with the keys of the table and of each class in it in
order. -/
structure IsTextOf (text : String) (t : SymbolTable) : Prop where
  parsed : SymbolTable.parse? text = some t
  ordered : ∃ members, Json.ofText? text = some (.object members) ∧ KeysAscend members t ∧
    ∀ name inside, (name, .classType inside) ∈ t.entries →
      ∃ inner, (some name, .object inner) ∈ members ∧ KeysAscend inner inside

namespace NameMap

variable {α : Type}

/-- What a map is written as. -/
def members (write : α → Json) (m : NameMap α) : List (Option String × Json) :=
  m.entries.map fun e => (some e.1, write e.2)

theorem toJson_eq_object (write : α → Json) (m : NameMap α) :
    m.toJson write = .object (m.members write) := by
  rw [NameMap.toJson, Json.ofMembers, List.map_map]
  rfl

theorem keysAscend_members (write : α → Json) (m : NameMap α) :
    KeysAscend (m.members write) m where
  keys := by simp only [members, names, List.map_map, Function.comp_def]
  ascending := List.pairwise_map.mpr (m.ascending.imp Text.bytes_lt_bytes)

end NameMap

namespace SymbolTable

theorem isTextOf {text : String} {t : SymbolTable} (read : Json.ofText? text = some t.toJson) :
    IsTextOf text t where
  parsed := parse?_eq_some read
  ordered := by
    refine ⟨t.members Signature.toJson, ?_, t.keysAscend_members _, fun name inside entry => ?_⟩
    · rw [read, toJson, NameMap.toJson_eq_object]
    · refine ⟨inside.members Member.toJson, ?_, inside.keysAscend_members _⟩
      refine List.mem_map.mpr ⟨(name, .classType inside), entry, ?_⟩
      rw [Signature.toJson, NameMap.toJson_eq_object]

theorem isTextOf_pretty (t : SymbolTable) {last : String} (behind : Json.Blanks last.toList) :
    IsTextOf (t.pretty ++ last) t :=
  isTextOf (Json.ofText?_pretty t.plain_toJson behind)

theorem isTextOf_compact (t : SymbolTable) : IsTextOf t.compact t :=
  isTextOf (Json.ofText?_compact t.plain_toJson)

/-- One text is not that of two tables. -/
theorem eq_of_isTextOf {text : String} {t t' : SymbolTable} (is : IsTextOf text t)
    (is' : IsTextOf text t') : t = t' :=
  Option.some.inj (is.parsed.symm.trans is'.parsed)

/-- Each text of a table is read back as the table, says its names in order, and is the text of
no other table. -/
theorem texts_read_back (t : SymbolTable) :
    IsTextOf t.pretty t ∧ IsTextOf t.compact t ∧
    (∃ text, Text.decode? (Batch.RecordStore.body t) = some text ∧ IsTextOf text t) ∧
    ∀ t' : SymbolTable,
      (t.pretty = t'.pretty ↔ t = t') ∧ (t.compact = t'.compact ↔ t = t') ∧
      (Batch.RecordStore.body t = Batch.RecordStore.body t' ↔ t = t') := by
  have pretty (t : SymbolTable) : IsTextOf t.pretty t := by
    have read : IsTextOf (t.pretty ++ "") t := t.isTextOf_pretty (by simp [Json.Blanks])
    rwa [String.append_empty] at read
  have line (t : SymbolTable) : IsTextOf (t.pretty ++ "\n") t :=
    t.isTextOf_pretty (by simp [Json.Blanks, Json.isSpace])
  refine ⟨pretty t, t.isTextOf_compact, ⟨_, Text.decode?_encode _, line t⟩, fun t' => ?_⟩
  refine ⟨⟨fun same => ?_, congrArg _⟩, ⟨fun same => ?_, congrArg _⟩, ⟨fun same => ?_, congrArg _⟩⟩
  · exact eq_of_isTextOf (pretty t) (same ▸ pretty t')
  · exact eq_of_isTextOf t.isTextOf_compact (same ▸ t'.isTextOf_compact)
  · exact eq_of_isTextOf (line t) (Text.encode_injective same ▸ line t')

end SymbolTable

end ApiInventory
