import ApiInventory.Proofs.Batch.RecordNames
import ApiInventory.Proofs.Text.ByteOrder
import ApiInventory.Text.Counter
import Mathlib

/-!
# Tokens sort as versions do

The token of a version that sorts has three groups of four digits behind its `v`. Digits of one
width compare as the numbers they stand for (`IsGroup.lt_iff`), groups one after the other compare
as their numbers do, one after the other (`flatten_lt_iff`), and texts compare as their bytes. So
such tokens are in the order of the first three numbers of their versions, and two of them are the
same only if these numbers are (`tokens_sort`). Whether a version sorts or not, its token depends on
its first three components alone.
-/

namespace ApiInventory.Batch

open Text (digitValue digitsValue pieces)

/-! ## Digits of one width -/

theorem digitValue_lt {c : Char} (digit : c.isDigit = true) : digitValue c < 10 := by
  obtain ⟨_, high⟩ := Char.isDigit_iff_toNat.mp digit
  have zero : '0'.toNat = 48 := rfl
  have nine : '9'.toNat = 57 := rfl
  unfold digitValue
  omega

theorem digitValue_lt_iff {c c' : Char} (digit : c.isDigit = true) (digit' : c'.isDigit = true) :
    digitValue c < digitValue c' ↔ c < c' := by
  have order : c < c' ↔ c.toNat < c'.toNat := by
    rw [Char.lt_def, UInt32.lt_iff_toNat_lt]
    rfl
  have low := (Char.isDigit_iff_toNat.mp digit).1
  have low' := (Char.isDigit_iff_toNat.mp digit').1
  rw [order]
  unfold digitValue
  omega

theorem digitValue_inj {c c' : Char} (digit : c.isDigit = true) (digit' : c'.isDigit = true) :
    digitValue c = digitValue c' ↔ c = c' := by
  have low := (Char.isDigit_iff_toNat.mp digit).1
  have low' := (Char.isDigit_iff_toNat.mp digit').1
  rw [← Char.toNat_inj]
  unfold digitValue
  omega

/-- So many decimal digits. -/
structure IsGroup (width : Nat) (group : List Char) : Prop where
  length : group.length = width
  digits : ∀ c ∈ group, c.isDigit = true

namespace IsGroup

variable {width : Nat} {a b : List Char} {c : Char}

theorem head (h : IsGroup (width + 1) (c :: a)) : c.isDigit = true :=
  h.digits c List.mem_cons_self

theorem tail (h : IsGroup (width + 1) (c :: a)) : IsGroup width a :=
  ⟨by simpa using h.length, fun x member => h.digits x (List.mem_cons_of_mem c member)⟩

theorem exists_cons (h : IsGroup (width + 1) a) : ∃ c rest, a = c :: rest :=
  List.exists_cons_of_length_eq_add_one h.length

/-- Digits behind two numbers decide only where the numbers are the same. -/
theorem foldl_lt_iff (h : IsGroup width a) (h' : IsGroup width b) (m n : Nat) :
    a.foldl (fun n c => 10 * n + digitValue c) m < b.foldl (fun n c => 10 * n + digitValue c) n ↔
      m < n ∨ m = n ∧ a < b := by
  induction width generalizing a b m n with
  | zero =>
      obtain rfl := List.eq_nil_of_length_eq_zero h.length
      obtain rfl := List.eq_nil_of_length_eq_zero h'.length
      simp
  | succ width ih =>
      obtain ⟨c, a, rfl⟩ := h.exists_cons
      obtain ⟨c', b, rfl⟩ := h'.exists_cons
      have small := digitValue_lt h.head
      have small' := digitValue_lt h'.head
      rw [List.foldl_cons, List.foldl_cons, ih h.tail h'.tail, List.cons_lt_cons_iff,
        ← digitValue_lt_iff h.head h'.head, ← digitValue_inj h.head h'.head]
      have before : 10 * m + digitValue c < 10 * n + digitValue c' ↔
          m < n ∨ m = n ∧ digitValue c < digitValue c' := by omega
      have level : 10 * m + digitValue c = 10 * n + digitValue c' ↔
          m = n ∧ digitValue c = digitValue c' := by omega
      rw [before, level, and_assoc, or_assoc, ← and_or_left]

theorem lt_iff (h : IsGroup width a) (h' : IsGroup width b) :
    digitsValue a < digitsValue b ↔ a < b := by
  rw [digitsValue, digitsValue, foldl_lt_iff h h']
  simp

theorem value_inj (h : IsGroup width a) (h' : IsGroup width b) :
    digitsValue a = digitsValue b ↔ a = b := by
  refine ⟨fun same => ?_, congrArg digitsValue⟩
  rcases lt_trichotomy a b with lt | rfl | lt
  · exact absurd ((h.lt_iff h').mpr lt) (Nat.not_lt.mpr same.ge)
  · rfl
  · exact absurd ((h'.lt_iff h).mpr lt) (Nat.not_lt.mpr same.le)

end IsGroup

theorem append_lt_append_iff {a b x y : List Char} (same : a.length = b.length) :
    a ++ x < b ++ y ↔ a < b ∨ a = b ∧ x < y := by
  induction a generalizing b with
  | nil =>
      obtain rfl := List.eq_nil_of_length_eq_zero same.symm
      simp
  | cons c a ih =>
      obtain ⟨c', b, rfl⟩ := List.exists_cons_of_length_eq_add_one same.symm
      rw [List.cons_append, List.cons_append, List.cons_lt_cons_iff, List.cons_lt_cons_iff,
        ih (by simpa using same), List.cons.injEq]
      tauto

/-- Groups one after the other compare as their numbers do. -/
theorem flatten_lt_iff {width : Nat} {groups groups' : List (List Char)}
    (all : ∀ g ∈ groups, IsGroup width g) (all' : ∀ g ∈ groups', IsGroup width g)
    (same : groups.length = groups'.length) :
    groups.flatten < groups'.flatten ↔ groups.map digitsValue < groups'.map digitsValue := by
  induction groups generalizing groups' with
  | nil =>
      obtain rfl := List.eq_nil_of_length_eq_zero same.symm
      simp
  | cons g groups ih =>
      obtain ⟨g', groups', rfl⟩ := List.exists_cons_of_length_eq_add_one same.symm
      obtain ⟨first, rest⟩ := List.forall_mem_cons.mp all
      obtain ⟨first', rest'⟩ := List.forall_mem_cons.mp all'
      rw [List.flatten_cons, List.flatten_cons, List.map_cons, List.map_cons,
        append_lt_append_iff (first.length.trans first'.length.symm), List.cons_lt_cons_iff,
        ih rest rest' (by simpa using same), first.lt_iff first', first.value_inj first']

/-! ## Versions that sort -/

/-- The numbers that the first three components of a version stand for. One that is missing or
empty stands for zero. -/
def versionNumbers (version : String) : List Nat :=
  (List.range versionComponents).map fun i => digitsValue ((pieces '.' version.toList)[i]?.getD [])

theorem digitsValue_padded (component : List Char) :
    digitsValue (padded component) = digitsValue component := by
  have zeros (k : Nat) : (List.replicate k '0').foldl (fun n c => 10 * n + digitValue c) 0 = 0 := by
    induction k with
    | zero => rfl
    | succ k ih => simpa [List.replicate_succ, digitValue] using ih
  rw [digitsValue, padded, List.foldl_append, zeros, ← digitsValue]

theorem isGroup_padded {component : List Char} (fits : componentFits component = true) :
    IsGroup componentWidth (padded component) := by
  simp only [componentFits, Bool.and_eq_true, decide_eq_true_eq, List.all_eq_true] at fits
  refine ⟨length_padded fits.1, fun c member => ?_⟩
  rcases List.mem_append.mp member with zero | own
  · obtain rfl := List.eq_of_mem_replicate zero
    decide
  · exact fits.2 c own

/-- The components that are filled in stand for what is missing. -/
theorem versionNumbers_eq (version : String) :
    versionNumbers version = (countedComponents version.toList).map digitsValue := by
  apply List.ext_getElem
  · simp [versionNumbers, length_countedComponents]
  · intro i inside _
    have small : i < versionComponents := by simpa [versionNumbers] using inside
    simp only [versionNumbers, countedComponents, List.getElem_map, List.getElem_range,
      List.getElem_take]
    by_cases own : i < (pieces '.' version.toList).length
    · rw [List.getElem_append_left own, List.getElem?_eq_getElem own, Option.getD_some]
    · rw [List.getElem_append_right (Nat.le_of_not_lt own), List.getElem_replicate,
        List.getElem?_eq_none (Nat.le_of_not_lt own), Option.getD_none]
      rfl

section Sortable

variable {v w : String} (sortable : isSortable v = true) (sortable' : isSortable w = true)
include sortable

theorem isGroup_of_mem {g : List Char}
    (member : g ∈ (countedComponents v.toList).map padded) : IsGroup componentWidth g := by
  obtain ⟨component, counted, rfl⟩ := List.mem_map.mp member
  exact isGroup_padded (componentFits_of_mem_countedComponents sortable counted)

theorem length_toList_versionToken : (versionToken v).toList.length = 13 := by
  have groups : ∀ g ∈ (countedComponents v.toList).map padded, g.length = componentWidth :=
    fun g member => (isGroup_of_mem sortable member).length
  rw [versionToken, String.toList_ofList, List.length_cons, List.flatMap_def, List.length_flatten,
    List.map_congr_left groups, List.map_const', List.sum_replicate, List.length_map,
    length_countedComponents]
  rfl

/-- The token of a version that sorts has one byte for each of its characters. -/
theorem length_bytes_versionToken : (Text.bytes (versionToken v)).length = 13 := by
  have single : ∀ c ∈ (versionToken v).toList, (String.utf8EncodeChar c).length = 1 := by
    intro c member
    have ascii : c.toNat < 128 := by
      rcases eq_v_or_isDigit_of_mem_versionToken sortable member with rfl | digit
      · decide
      · exact lt_of_le_of_lt (Char.isDigit_iff_toNat.mp digit).2 (by decide)
    rw [String.length_utf8EncodeChar, Char.utf8Size_eq_one_iff, UInt32.le_iff_toNat_le]
    exact Nat.le_of_lt_succ ascii
  rw [Text.bytes_eq_flatMap, List.length_flatMap, List.map_congr_left single, List.map_const',
    List.sum_replicate, length_toList_versionToken sortable]
  rfl

include sortable'

theorem versionToken_lt_iff :
    versionToken v < versionToken w ↔ versionNumbers v < versionNumbers w := by
  have groups := flatten_lt_iff (fun _ => isGroup_of_mem sortable)
    (fun _ => isGroup_of_mem sortable') (by simp [length_countedComponents])
  rw [List.map_map, List.map_map, Function.comp_def] at groups
  simp only [digitsValue_padded] at groups
  rw [String.lt_iff, versionToken, versionToken, String.toList_ofList, String.toList_ofList,
    List.cons_lt_cons_iff, versionNumbers_eq, versionNumbers_eq, ← groups, List.flatMap_def,
    List.flatMap_def]
  simp

theorem versionToken_inj :
    versionToken v = versionToken w ↔ versionNumbers v = versionNumbers w := by
  have before := versionToken_lt_iff sortable sortable'
  have after := versionToken_lt_iff sortable' sortable
  constructor
  · intro same
    rw [same] at before after
    have notBefore := mt before.mpr (lt_irrefl _)
    have notAfter := mt after.mpr (lt_irrefl _)
    exact le_antisymm (not_lt.mp notAfter) (not_lt.mp notBefore)
  · intro same
    rw [same] at before after
    have notBefore := mt before.mp (lt_irrefl _)
    have notAfter := mt after.mp (lt_irrefl _)
    exact le_antisymm (not_lt.mp notAfter) (not_lt.mp notBefore)

theorem cmp_bytes_versionToken :
    cmp (Text.bytes (versionToken v)) (Text.bytes (versionToken w)) =
      cmp (versionNumbers v) (versionNumbers w) := by
  simp only [cmp, cmpUsing, Text.bytes_lt_bytes_iff, versionToken_lt_iff sortable sortable',
    versionToken_lt_iff sortable' sortable]

theorem recordName_versionToken_inj (package : String) :
    recordName package (versionToken v) = recordName package (versionToken w) ↔
      versionNumbers v = versionNumbers w := by
  rw [recordName, recordName, String.append_left_inj, String.append_right_inj,
    cleaned_versionToken sortable, cleaned_versionToken sortable',
    versionToken_inj sortable sortable']

end Sortable

/-! ## All versions -/

/-- The token of a version depends on its first three components. -/
theorem versionToken_congr {v w : String}
    (same : (pieces '.' v.toList).take versionComponents =
      (pieces '.' w.toList).take versionComponents) :
    versionToken v = versionToken w := by
  have counted (version : List Char) : countedComponents version =
      ((pieces '.' version).take versionComponents ++
        List.replicate versionComponents ['0']).take versionComponents := by
    simp only [countedComponents, List.take_append, List.take_take, List.length_take, min_self]
    congr 2
    omega
  rw [versionToken, versionToken, counted, counted, same]

/-- A component that is missing can be written out as zero. -/
theorem versionToken_append_zero {v : String}
    (few : (pieces '.' v.toList).length < versionComponents) :
    versionToken (v ++ ".0") = versionToken v := by
  have longer : pieces '.' (v ++ ".0").toList = pieces '.' v.toList ++ [['0']] := by
    rw [String.toList_append]
    exact Text.pieces_append '.' v.toList ['0']
  have same : countedComponents (v ++ ".0").toList = countedComponents v.toList := by
    rw [countedComponents, longer, List.append_assoc]
    have zeros : [['0']] ++ List.replicate versionComponents ['0'] =
        List.replicate (versionComponents + 1) ['0'] := rfl
    rw [zeros]
    simp only [countedComponents, List.take_append, List.take_replicate]
    congr 2
    omega
  rw [versionToken, versionToken, same]

/-- **Tokens sort as versions do.** If two versions sort, then their tokens have thirteen bytes
each, which compare as the first three numbers of the versions do, and any package has one record
for both versions just if these numbers are the same. The token of any version depends on its first
three components, of which those that are missing can be written out as zeros. -/
theorem tokens_sort :
    (∀ v w, isSortable v = true → isSortable w = true →
      (Text.bytes (versionToken v)).length = 13 ∧ (Text.bytes (versionToken w)).length = 13 ∧
      cmp (Text.bytes (versionToken v)) (Text.bytes (versionToken w)) =
        cmp (versionNumbers v) (versionNumbers w) ∧
      ∀ package, recordName package (versionToken v) = recordName package (versionToken w) ↔
        versionNumbers v = versionNumbers w) ∧
    (∀ v w, (pieces '.' v.toList).take 3 = (pieces '.' w.toList).take 3 →
      versionToken v = versionToken w) ∧
    ∀ v, (pieces '.' v.toList).length < 3 → versionToken (v ++ ".0") = versionToken v := by
  refine ⟨fun v w sortable sortable' => ?_, fun v w => versionToken_congr,
    fun v => versionToken_append_zero⟩
  exact ⟨length_bytes_versionToken sortable, length_bytes_versionToken sortable',
    cmp_bytes_versionToken sortable sortable', recordName_versionToken_inj sortable sortable'⟩

theorem tokens_sort_of_releases :
    isSortable "1.9.0" = true ∧ isSortable "1.10" = true ∧
      cmp (Text.bytes (versionToken "1.9.0")) (Text.bytes (versionToken "1.10")) = .lt ∧
      recordName "a" (versionToken "1.9.0") ≠ recordName "a" (versionToken "1.10") ∧
      versionToken "1.2.3.post1" = versionToken "1.2.3" ∧
      versionToken ("1.10" ++ ".0") = versionToken "1.10" := by
  obtain ⟨sorts, depends, fills⟩ := tokens_sort
  obtain ⟨_, _, order, names⟩ := sorts "1.9.0" "1.10" (by decide) (by decide)
  refine ⟨by decide, by decide, ?_, ?_, depends _ _ (by decide), fills _ (by decide)⟩
  · rw [order]
    decide
  · rw [Ne, names]
    decide

end ApiInventory.Batch
