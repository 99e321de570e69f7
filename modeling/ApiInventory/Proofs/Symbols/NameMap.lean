import Mathlib.Data.Set.Card
import ApiInventory.Symbols.NameMap

/-!
# What maps bind

A map is no more than what it binds (`ext_get?`). Where maps are merged one after the other, each
name keeps the first value that it was bound to (`get?_mergeAll`), in whatever groups that is done
(`mergeAll_flatten`). Where bindings are put into a map one after the other, each name has the last
one (`get?_ofList`), and only the order of those for one name counts (`ofList_swap`).
-/

namespace ApiInventory.NameMap

variable {α : Type}

/-! ## Equal maps -/

theorem mem_entries_iff {m : NameMap α} {name : String} {x : α} :
    (name, x) ∈ m.entries ↔ m.get? name = some x := by
  obtain ⟨entries, ascending⟩ := m
  change (name, x) ∈ entries ↔ entries.lookup name = some x
  induction entries with
  | nil => simp
  | cons e rest ih =>
      obtain ⟨above, ascending⟩ := List.pairwise_cons.mp ascending
      rw [lookup_cons_if, List.mem_cons, ih ascending]
      by_cases here : name = e.1
      · subst here
        have absent : rest.lookup e.1 = none := lookup_eq_none_of_forall_lt above
        simp [absent, Prod.ext_iff, eq_comm]
      · have other : (name, x) ≠ e := by
          rintro rfl
          exact here rfl
        simp [here, other]

/-- Maps that bind the same names to the same values are the same. -/
theorem ext_get? {m n : NameMap α} (same : ∀ name, m.get? name = n.get? name) : m = n := by
  have differ {k : NameMap α} : k.entries.Nodup := by
    apply k.ascending.imp
    rintro a b lt rfl
    exact String.lt_irrefl _ lt
  have permuted : m.entries.Perm n.entries := by
    apply (List.perm_ext_iff_of_nodup differ differ).mpr
    rintro ⟨name, x⟩
    rw [mem_entries_iff, mem_entries_iff, same]
  apply ext_entries
  apply permuted.eq_of_pairwise _ m.ascending n.ascending
  intro a b _ _ before after
  exact absurd after (String.lt_asymm before)

/-! ## Merged maps -/

theorem get?_foldl_insertNew (es : List (String × α)) (m : NameMap α) (name : String) :
    (es.foldl (fun m e => m.insertNew e.1 e.2) m).get? name =
      (m.get? name).or (es.lookup name) := by
  induction es generalizing m with
  | nil => simp
  | cons e es ih =>
      rw [List.foldl_cons, ih, get?_insertNew, lookup_cons_if]
      by_cases here : name = e.1
      · subst here
        cases bound : m.get? e.1 <;> simp
      · simp [here]

/-- What is bound stays, and free names are filled. -/
@[simp] theorem get?_mergeNew (m other : NameMap α) (name : String) :
    (m.mergeNew other).get? name = (m.get? name).or (other.get? name) :=
  get?_foldl_insertNew other.entries m name

theorem get?_foldl_mergeNew (ms : List (NameMap α)) (m : NameMap α) (name : String) :
    (ms.foldl mergeNew m).get? name = (m.get? name).or (ms.findSome? (·.get? name)) := by
  induction ms generalizing m with
  | nil => simp
  | cons first rest ih =>
      rw [List.foldl_cons, ih, get?_mergeNew, List.findSome?_cons]
      cases m.get? name <;> cases first.get? name <;> simp

/-- Of maps merged one after the other the first one counts that binds a name. -/
theorem get?_mergeAll (ms : List (NameMap α)) (name : String) :
    (ms.foldl mergeNew ∅).get? name = ms.findSome? (·.get? name) := by
  rw [get?_foldl_mergeNew, get?_empty, Option.none_or]

/-! ## Merging as an operation -/

theorem mergeNew_assoc (a b c : NameMap α) :
    (a.mergeNew b).mergeNew c = a.mergeNew (b.mergeNew c) := by
  apply ext_get?
  intro name
  simp only [get?_mergeNew, Option.or_assoc]

@[simp] theorem mergeNew_empty (m : NameMap α) : m.mergeNew ∅ = m := rfl

@[simp] theorem empty_mergeNew (m : NameMap α) : (∅ : NameMap α).mergeNew m = m := by
  apply ext_get?
  intro name
  simp

@[simp] theorem mergeNew_self (m : NameMap α) : m.mergeNew m = m := by
  apply ext_get?
  intro name
  simp

/-- Merged maps may themselves be merged of groups of maps. -/
theorem mergeAll_flatten (groups : List (List (NameMap α))) :
    groups.flatten.foldl mergeNew ∅ = (groups.map (·.foldl mergeNew ∅)).foldl mergeNew ∅ := by
  apply ext_get?
  intro name
  simp only [get?_mergeAll, List.findSome?_map, Function.comp_def]
  induction groups with
  | nil => rfl
  | cons group groups ih =>
      rw [List.flatten_cons, List.findSome?_append, ih, List.findSome?_cons]
      cases group.findSome? (·.get? name) <;> rfl

/-- Which of two maps comes first matters where they bind a name to different values, and only
there. -/
theorem mergeNew_comm_iff {a b : NameMap α} :
    a.mergeNew b = b.mergeNew a ↔
      ∀ name x y, a.get? name = some x → b.get? name = some y → x = y := by
  constructor
  · intro same name x y first second
    have merged := congrArg (·.get? name) same
    simpa [first, second] using merged
  · intro agree
    apply ext_get?
    intro name
    rw [get?_mergeNew, get?_mergeNew]
    rcases first : a.get? name with _ | x
    · rw [Option.none_or, Option.or_none]
    · rcases second : b.get? name with _ | y
      · rfl
      · rw [agree name x y first second]

/-! ## Names -/

theorem names_nodup (m : NameMap α) : m.names.Nodup := by
  rw [names, List.nodup_iff_pairwise_ne, List.pairwise_map]
  apply m.ascending.imp
  intro a b lt same
  exact String.lt_irrefl _ (same ▸ lt)

theorem mem_names_iff {m : NameMap α} {name : String} :
    name ∈ m.names ↔ m.contains name = true := by
  rw [names, List.mem_map, contains_eq, Option.isSome_iff_exists]
  constructor
  · rintro ⟨⟨_, x⟩, member, rfl⟩
    exact ⟨x, mem_entries_iff.mp member⟩
  · rintro ⟨x, bound⟩
    exact ⟨(name, x), mem_entries_iff.mpr bound, rfl⟩

/-- The size of a map is the number of the names that it binds. -/
theorem size_eq_ncard (m : NameMap α) : m.size = Set.ncard {name | m.contains name = true} := by
  have bound : {name | m.contains name = true} = ↑m.names.toFinset := by
    ext name
    rw [List.coe_toFinset, Set.mem_ofPred_eq, Set.mem_ofPred_eq, mem_names_iff]
  rw [bound, Set.ncard_coe_finset, List.toFinset_card_of_nodup m.names_nodup, names,
    List.length_map, size]

/-! ## Maps of bindings -/

theorem get?_foldl_put (bindings : List (String × α)) (m : NameMap α) (name : String) :
    (bindings.foldl (fun m e => m.put e.1 e.2) m).get? name =
      (bindings.reverse.lookup name).or (m.get? name) := by
  induction bindings generalizing m with
  | nil => rfl
  | cons e bindings ih =>
      rw [List.foldl_cons, ih, get?_put, List.reverse_cons, List.lookup_append, Option.or_assoc,
        lookup_cons_if]
      by_cases here : name = e.1
      · simp [here]
      · simp [here]

theorem get?_ofList (bindings : List (String × α)) (name : String) :
    (ofList bindings).get? name = bindings.reverse.lookup name := by
  rw [ofList, get?_foldl_put]
  exact Option.or_none

theorem put_comm (m : NameMap α) {a b : String} (differ : a ≠ b) (x y : α) :
    (m.put a x).put b y = (m.put b y).put a x := by
  apply ext_get?
  intro name
  simp only [get?_put]
  by_cases first : name = a
  · subst first
    simp [differ]
  · simp [first]

theorem ofList_swap (before behind : List (String × α)) {a b : String × α}
    (differ : a.1 ≠ b.1) :
    ofList (before ++ a :: b :: behind) = ofList (before ++ b :: a :: behind) := by
  simp only [ofList, List.foldl_append, List.foldl_cons, put_comm _ differ]

end ApiInventory.NameMap
