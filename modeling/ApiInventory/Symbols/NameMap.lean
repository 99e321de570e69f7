/-!
# Maps from names

Entries are kept in ascending order of their names, so that a map has one
representation and its entries can be written out as they stand. Strings compare by
code points, which is the order of their UTF-8 bytes.

`get?_update` says all there is to say about a change; adding and replacing are
updates.
-/

namespace ApiInventory

structure NameMap (α : Type) where
  entries : List (String × α)
  ascending : entries.Pairwise fun a b => a.1 < b.1
deriving DecidableEq

namespace NameMap

variable {α : Type}

/-- Change the value at one name. -/
def updateEntries (name : String) (f : Option α → α) : List (String × α) → List (String × α)
  | [] => [(name, f none)]
  | e :: es =>
    if name < e.1 then (name, f none) :: e :: es
    else if name = e.1 then (e.1, f (some e.2)) :: es
    else e :: updateEntries name f es

theorem mem_updateEntries {name : String} {f : Option α → α} {es : List (String × α)}
    {x : String × α} (h : x ∈ updateEntries name f es) : x.1 = name ∨ ∃ y ∈ es, y.1 = x.1 := by
  induction es with
  | nil => simp_all [updateEntries]
  | cons e es ih =>
    simp only [updateEntries] at h
    split at h
    · rcases List.mem_cons.1 h with rfl | h
      · exact .inl rfl
      · exact .inr ⟨x, h, rfl⟩
    · split at h
      · rcases List.mem_cons.1 h with rfl | h
        · exact .inr ⟨e, by simp, rfl⟩
        · exact .inr ⟨x, by simp [h], rfl⟩
      · rcases List.mem_cons.1 h with rfl | h
        · exact .inr ⟨x, by simp, rfl⟩
        · rcases ih h with h | ⟨y, hy, e⟩
          · exact .inl h
          · exact .inr ⟨y, by simp [hy], e⟩

theorem pairwise_updateEntries {name : String} {f : Option α → α} {es : List (String × α)}
    (h : es.Pairwise fun a b => a.1 < b.1) :
    (updateEntries name f es).Pairwise fun a b => a.1 < b.1 := by
  induction es with
  | nil => simp [updateEntries]
  | cons e es ih =>
    rw [List.pairwise_cons] at h
    simp only [updateEntries]
    split
    · rename_i lt
      refine List.pairwise_cons.2 ⟨?_, List.pairwise_cons.2 h⟩
      intro x hx
      rcases List.mem_cons.1 hx with rfl | hx
      · exact lt
      · exact String.lt_trans lt (h.1 x hx)
    · split
      · exact List.pairwise_cons.2 ⟨h.1, h.2⟩
      · rename_i notLt ne
        refine List.pairwise_cons.2 ⟨?_, ih h.2⟩
        intro x hx
        rcases mem_updateEntries hx with hx | ⟨y, hy, eq⟩
        · rw [hx]
          exact Std.lt_of_le_of_ne (String.not_lt.1 notLt) (Ne.symm ne)
        · rw [← eq]
          exact h.1 y hy

def empty : NameMap α := ⟨[], .nil⟩

instance : EmptyCollection (NameMap α) := ⟨empty⟩

instance : Inhabited (NameMap α) := ⟨empty⟩

def get? (m : NameMap α) (name : String) : Option α :=
  m.entries.lookup name

def contains (m : NameMap α) (name : String) : Bool :=
  (m.get? name).isSome

def size (m : NameMap α) : Nat := m.entries.length

def isEmpty (m : NameMap α) : Bool := m.entries.isEmpty

def names (m : NameMap α) : List String := m.entries.map (·.1)

def update (m : NameMap α) (name : String) (f : Option α → α) : NameMap α :=
  ⟨updateEntries name f m.entries, pairwise_updateEntries m.ascending⟩

/-- Bind a name unless it is bound. -/
def insertNew (m : NameMap α) (name : String) (value : α) : NameMap α :=
  m.update name fun old => old.getD value

/-- Bind a name, whatever it was bound to. -/
def put (m : NameMap α) (name : String) (value : α) : NameMap α :=
  m.update name fun _ => value

/-- Add the entries of another map under the names that are still free. -/
def mergeNew (m other : NameMap α) : NameMap α :=
  other.entries.foldl (fun m e => m.insertNew e.1 e.2) m

/-- The map of a list of bindings, of which the last for a name counts. -/
def ofList (bindings : List (String × α)) : NameMap α :=
  bindings.foldl (fun m e => m.put e.1 e.2) empty

@[simp] theorem entries_empty : (∅ : NameMap α).entries = [] := rfl

@[simp] theorem get?_empty (name : String) : (∅ : NameMap α).get? name = none := rfl

theorem ext_entries {m n : NameMap α} (h : m.entries = n.entries) : m = n := by
  cases m
  cases n
  simp_all

theorem lookup_cons_if (e : String × α) (es : List (String × α)) (name : String) :
    (e :: es).lookup name = if name = e.1 then some e.2 else es.lookup name := by
  rw [List.lookup_cons]
  by_cases h : name = e.1
  · simp [h]
  · simp [h, beq_eq_false_iff_ne.2 h]

theorem lookup_eq_none_of_forall_lt {name : String} {es : List (String × α)}
    (h : ∀ e ∈ es, name < e.1) : es.lookup name = none := by
  induction es with
  | nil => rfl
  | cons e es ih =>
    have ne : name ≠ e.1 := fun eq => String.lt_irrefl _ (eq ▸ h e (by simp))
    rw [lookup_cons_if, if_neg ne]
    exact ih fun x hx => h x (by simp [hx])

theorem lookup_updateEntries {name : String} {f : Option α → α} {es : List (String × α)}
    (h : es.Pairwise fun a b => a.1 < b.1) (other : String) :
    (updateEntries name f es).lookup other =
      if other = name then some (f (es.lookup name)) else es.lookup other := by
  induction es with
  | nil => simp [updateEntries, lookup_cons_if]
  | cons e es ih =>
    rw [List.pairwise_cons] at h
    simp only [updateEntries]
    by_cases lt : name < e.1
    · have free : (e :: es).lookup name = none := by
        refine lookup_eq_none_of_forall_lt fun x hx => ?_
        rcases List.mem_cons.1 hx with rfl | hx
        · exact lt
        · exact String.lt_trans lt (h.1 x hx)
      rw [if_pos lt, free, lookup_cons_if]
    · rw [if_neg lt]
      by_cases eq : name = e.1
      · rw [if_pos eq, lookup_cons_if, lookup_cons_if, lookup_cons_if, if_pos eq, eq]
        by_cases h : other = e.1 <;> simp [h]
      · rw [if_neg eq, lookup_cons_if, ih h.2, lookup_cons_if, lookup_cons_if, if_neg eq]
        by_cases h : other = e.1
        · subst h
          simp [Ne.symm eq]
        · simp [h]

@[simp] theorem get?_update (m : NameMap α) (name : String) (f : Option α → α)
    (other : String) :
    (m.update name f).get? other =
      if other = name then some (f (m.get? name)) else m.get? other :=
  lookup_updateEntries m.ascending other

@[simp] theorem get?_insertNew (m : NameMap α) (name : String) (value : α) (other : String) :
    (m.insertNew name value).get? other =
      if other = name then some ((m.get? name).getD value) else m.get? other :=
  get?_update ..

@[simp] theorem get?_put (m : NameMap α) (name : String) (value : α) (other : String) :
    (m.put name value).get? other = if other = name then some value else m.get? other :=
  get?_update ..

@[simp] theorem contains_eq (m : NameMap α) (name : String) :
    m.contains name = (m.get? name).isSome := rfl

end NameMap

end ApiInventory
