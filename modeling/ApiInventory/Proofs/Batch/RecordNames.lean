import ApiInventory.Batch.RecordName
import ApiInventory.Batch.VersionToken
import ApiInventory.Proofs.Files.Spelling
import Mathlib

/-!
# What the name of a record tells

The name of a record is the name of an entry of a directory, whatever the package and the version
are (`isEntryName_recordName`). It does not always tell which package it is for: both parts may
hold the underscore that stands between them, so that a package with an underscore can have the
name of another one at another version. `recordName_eq_iff` says when exactly two records share
a name.
-/

namespace ApiInventory.Batch

theorem toNat_lt_of_isSafeChar {c : Char} (h : isSafeChar c = true) : c.toNat < 128 := by
  simp only [isSafeChar, Char.isAlphanum, Char.isAlpha, Char.isUpper, Char.isLower, Char.isDigit,
    Bool.or_eq_true, Bool.and_eq_true, decide_eq_true_eq, beq_iff_eq, UInt32.le_iff_toNat_le] at h
  have value : c.toNat = c.val.toNat := rfl
  have : 'Z'.val.toNat = 90 := rfl
  have : 'z'.val.toNat = 122 := rfl
  have : '9'.val.toNat = 57 := rfl
  rcases h with (((h | rfl) | rfl) | rfl)
  · omega
  · decide
  · decide
  · decide

theorem isBlank_eq_false_of_isSafeChar {c : Char} (h : isSafeChar c = true) :
    Text.isBlank c = false := by
  have safe : ∀ k < 128, isSafeChar (Char.ofNat k) = true →
      Text.isBlank (Char.ofNat k) = false := by decide
  have blank := safe c.toNat (toNat_lt_of_isSafeChar h)
  rw [Char.ofNat_toNat] at blank
  exact blank h

theorem ne_slash_of_isSafeChar {c : Char} (h : isSafeChar c = true) : c ≠ '/' := by
  rintro rfl
  cases h

/-! ## Parts -/

theorem isSafeChar_of_mem_cleanedChars {part : List Char} {c : Char}
    (h : c ∈ cleanedChars part) : isSafeChar c = true := by
  unfold cleanedChars at h
  dsimp only at h
  split at h
  · obtain rfl := List.mem_singleton.mp h
    decide
  · obtain ⟨x, _, rfl⟩ := List.mem_map.mp h
    split
    · assumption
    · decide

/-- A part that is safe stays as it is. -/
theorem cleaned_eq_self {part : String} (h : isSafePart part = true) : cleaned part = part := by
  simp only [isSafePart, Bool.and_eq_true, decide_eq_true_eq, Bool.not_eq_true',
    List.all_eq_true] at h
  obtain ⟨⟨_, safe⟩, points⟩ := h
  have trimmed : Text.trim part.toList = part.toList := by
    have noBlank : ∀ c ∈ part.toList, Text.isBlank c = false := fun c member =>
      isBlank_eq_false_of_isSafeChar (safe c member)
    unfold Text.trim
    rw [Text.trimStart_eq_self fun c first => noBlank c (List.mem_of_head? first),
      Text.trimEnd_eq_self fun c last => noBlank c (List.mem_of_getLast? last)]
  have kept : part.toList.map (fun c => if isSafeChar c then c else '_') = part.toList := by
    refine (List.map_congr_left fun c member => ?_).trans (List.map_id _)
    exact if_pos (safe c member)
  unfold cleaned cleanedChars
  dsimp only
  rw [trimmed, kept, points]
  simp

/-- A part can be the name of an entry of a directory, once it is cleaned. -/
theorem isEntryName_cleaned (part : String) : Files.IsEntryName (cleaned part) := by
  have spelled : (cleaned part).toList = cleanedChars part.toList := by simp [cleaned]
  have points : (cleaned part).toList.all (· == '.') = false := by
    rw [spelled]
    unfold cleanedChars
    dsimp only
    split
    · rfl
    · rename_i some
      simpa using some
  refine ⟨?_, fun slash => ?_, ?_, ?_⟩
  case refine_2 =>
    rw [spelled] at slash
    exact ne_slash_of_isSafeChar (isSafeChar_of_mem_cleanedChars slash) rfl
  all_goals
    intro same
    simp [same] at points

/-! ## Names -/

theorem toList_recordName (package token : String) :
    (recordName package token).toList =
      cleanedChars package.toList ++ '_' :: (cleanedChars token.toList ++ ".json".toList) := by
  simp [recordName, cleaned]

theorem isSafeChar_of_mem_recordName {package token : String} {c : Char}
    (h : c ∈ (recordName package token).toList) : isSafeChar c = true := by
  rw [toList_recordName] at h
  simp only [List.mem_append, List.mem_cons] at h
  rcases h with inPackage | rfl | inToken | inEnd
  · exact isSafeChar_of_mem_cleanedChars inPackage
  · decide
  · exact isSafeChar_of_mem_cleanedChars inToken
  · exact List.all_eq_true.mp (by decide : ".json".toList.all isSafeChar = true) c inEnd

/-- A record can lie in a directory under its name. -/
theorem isEntryName_recordName (package token : String) :
    Files.IsEntryName (recordName package token) := by
  have long : 2 < (recordName package token).toList.length := by
    rw [toList_recordName]
    simp
    omega
  refine ⟨?_, fun slash => ne_slash_of_isSafeChar (isSafeChar_of_mem_recordName slash) rfl, ?_, ?_⟩
  all_goals
    intro same
    simp [same] at long

/-! ## Names that are shared -/

theorem append_cons_eq_append_cons_iff {α : Type} {p q a b : List α} {x : α} :
    p ++ x :: a = q ++ x :: b ↔
      (p = q ∧ a = b) ∨ (∃ r, p = q ++ x :: r ∧ b = r ++ x :: a) ∨
        ∃ r, q = p ++ x :: r ∧ a = r ++ x :: b := by
  rw [List.append_eq_append_iff]
  constructor
  · rintro (⟨more, rfl, split⟩ | ⟨more, rfl, split⟩)
    · rcases List.cons_eq_append_iff.mp split with ⟨rfl, same⟩ | ⟨r, rfl, rfl⟩
      · exact .inl ⟨by simp, (List.cons.inj same).2.symm⟩
      · exact .inr (.inr ⟨r, rfl, rfl⟩)
    · rcases List.cons_eq_append_iff.mp split with ⟨rfl, same⟩ | ⟨r, rfl, rfl⟩
      · exact .inl ⟨by simp, (List.cons.inj same).2⟩
      · exact .inr (.inl ⟨r, rfl, rfl⟩)
  · rintro (⟨rfl, rfl⟩ | ⟨r, rfl, rfl⟩ | ⟨r, rfl, rfl⟩)
    · exact .inl ⟨[], by simp, by simp⟩
    · exact .inr ⟨x :: r, rfl, rfl⟩
    · exact .inl ⟨x :: r, rfl, rfl⟩

theorem append_underscore_inj {p q a b : String} :
    p ++ "_" ++ a = q ++ "_" ++ b ↔
      (p = q ∧ a = b) ∨ (∃ r, p = q ++ "_" ++ r ∧ b = r ++ "_" ++ a) ∨
        ∃ r, q = p ++ "_" ++ r ∧ a = r ++ "_" ++ b := by
  have chars := append_cons_eq_append_cons_iff (p := p.toList) (q := q.toList) (a := a.toList)
    (b := b.toList) (x := '_')
  have exists_iff {holds : List Char → Prop} : (∃ r, holds r) ↔ ∃ r : String, holds r.toList :=
    ⟨fun ⟨r, h⟩ => ⟨String.ofList r, by simpa using h⟩, fun ⟨r, h⟩ => ⟨r.toList, h⟩⟩
  rw [exists_iff, exists_iff] at chars
  simpa [← String.toList_inj] using chars

/-- Two records of packages with safe names have one name just if both parts are the same, or if
one package is the other one with an underscore and more, and this more with another underscore
is in front of the token that goes with the other package. -/
theorem recordName_eq_iff {p q a b : String} (safe : isSafePart p = true)
    (safe' : isSafePart q = true) :
    recordName p a = recordName q b ↔
      (p = q ∧ cleaned a = cleaned b) ∨
      (∃ r, p = q ++ "_" ++ r ∧ cleaned b = r ++ "_" ++ cleaned a) ∨
      ∃ r, q = p ++ "_" ++ r ∧ cleaned a = r ++ "_" ++ cleaned b := by
  unfold recordName
  rw [cleaned_eq_self safe, cleaned_eq_self safe', String.append_left_inj, append_underscore_inj]

theorem isSafePart_of_safe {part : String} {c : Char} (first : part.toList.head? = some c)
    (noPoint : c ≠ '.') (safe : ∀ c ∈ part.toList, isSafeChar c = true) :
    isSafePart part = true := by
  have nonempty : part ≠ "" := by
    rintro rfl
    cases first
  have points : part.toList.all (· == '.') = false := by
    rw [List.all_eq_false]
    exact ⟨c, List.mem_of_head? first, by simpa using noPoint⟩
  have all : part.toList.all isSafeChar = true := List.all_eq_true.mpr safe
  simp [isSafePart, nonempty, points, all]

/-- What is in front of a token can be appended to a package. -/
theorem isSafePart_of_ends {x y r : String} (ends : cleaned x = r ++ "_" ++ cleaned y) :
    isSafePart ("a" ++ "_" ++ r) = true := by
  refine isSafePart_of_safe (c := 'a') (by simp) (by decide) fun c member => ?_
  have spelled : cleanedChars x.toList = r.toList ++ '_' :: (cleaned y).toList := by
    simpa [cleaned] using congrArg String.toList ends
  have pieces : c = 'a' ∨ c = '_' ∨ c ∈ r.toList := by simpa using member
  rcases pieces with rfl | rfl | inside
  · decide
  · decide
  · have kept : c ∈ cleanedChars x.toList := by
      rw [spelled]
      exact List.mem_append_left _ inside
    exact isSafeChar_of_mem_cleanedChars kept

theorem ne_append_underscore (p r : String) : p ≠ p ++ "_" ++ r := by
  intro same
  have longer := congrArg (fun s => s.toList.length) same
  simp at longer

/-- The name of a record tells the package, whichever it is, just if neither of the two tokens
ends in an underscore and the other one. -/
theorem recordName_identifies_iff (v w : String) :
    (∀ p q, isSafePart p = true → isSafePart q = true →
      recordName p (versionToken v) = recordName q (versionToken w) → p = q) ↔
    ∀ r, cleaned (versionToken v) ≠ r ++ "_" ++ cleaned (versionToken w) ∧
      cleaned (versionToken w) ≠ r ++ "_" ++ cleaned (versionToken v) := by
  constructor
  · intro tells r
    refine ⟨fun ends => ?_, fun ends => ?_⟩
    · have safe := isSafePart_of_ends ends
      have shared := (recordName_eq_iff (by decide) safe).mpr (.inr (.inr ⟨r, rfl, ends⟩))
      exact ne_append_underscore "a" r (tells _ _ (by decide) safe shared)
    · have safe := isSafePart_of_ends ends
      have shared := (recordName_eq_iff safe (by decide)).mpr (.inr (.inl ⟨r, rfl, ends⟩))
      exact ne_append_underscore "a" r (tells _ _ safe (by decide) shared).symm
  · intro apart p q safe safe' same
    rcases (recordName_eq_iff safe safe').mp same with ⟨same, _⟩ | ⟨r, _, ends⟩ | ⟨r, _, ends⟩
    · exact same
    · exact absurd ends (apart r).2
    · exact absurd ends (apart r).1

/-- A version whose second component is no number can have a token with an underscore. -/
theorem recordName_shared :
    isSafePart "a" = true ∧ isSafePart "a_v1" = true ∧
      recordName "a" (versionToken "1_v0001") = recordName "a_v1" (versionToken "1") ∧
      "a" ≠ "a_v1" := by
  decide

/-! ## Versions that sort -/

theorem componentFits_of_mem_countedComponents {version : String} {component : List Char}
    (sortable : isSortable version = true)
    (counted : component ∈ countedComponents version.toList) : componentFits component = true := by
  rw [countedComponents, List.take_append, List.mem_append] at counted
  rcases counted with own | missing
  · exact List.all_eq_true.mp sortable component own
  · obtain rfl := List.eq_of_mem_replicate (List.mem_of_mem_take missing)
    decide

/-- The token of a version that sorts holds no underscore. -/
theorem eq_v_or_isDigit_of_mem_versionToken {v : String} (sortable : isSortable v = true)
    {c : Char} (h : c ∈ (versionToken v).toList) : c = 'v' ∨ c.isDigit = true := by
  rw [versionToken, String.toList_ofList, List.mem_cons, List.mem_flatMap] at h
  rcases h with first | ⟨component, counted, inside⟩
  · exact .inl first
  · rcases List.mem_append.mp inside with zero | own
    · obtain rfl := List.eq_of_mem_replicate zero
      exact .inr (by decide)
    · have fits := componentFits_of_mem_countedComponents sortable counted
      have digits := (Bool.and_eq_true_iff.mp fits).2
      exact .inr (List.all_eq_true.mp digits c own)

theorem cleaned_versionToken {v : String} (sortable : isSortable v = true) :
    cleaned (versionToken v) = versionToken v := by
  refine cleaned_eq_self (isSafePart_of_safe (c := 'v') (by simp [versionToken]) (by decide) ?_)
  intro c member
  rcases eq_v_or_isDigit_of_mem_versionToken sortable member with rfl | digit
  · decide
  · simp [isSafeChar, Char.isAlphanum, digit]

theorem cleaned_versionToken_ne {v : String} (sortable : isSortable v = true) (r s : String) :
    cleaned (versionToken v) ≠ r ++ "_" ++ s := by
  intro ends
  have inside : '_' ∈ (versionToken v).toList := by
    rw [← cleaned_versionToken sortable, ends]
    simp
  rcases eq_v_or_isDigit_of_mem_versionToken sortable inside with same | digit
  · cases same
  · cases digit

/-- The names of records at versions that sort tell the package and the token. -/
theorem recordName_inj_of_isSortable {p q v w : String} (safe : isSafePart p = true)
    (safe' : isSafePart q = true) (sortable : isSortable v = true) (sortable' : isSortable w = true)
    (same : recordName p (versionToken v) = recordName q (versionToken w)) :
    p = q ∧ versionToken v = versionToken w := by
  rcases (recordName_eq_iff safe safe').mp same with ⟨same, tokens⟩ | ⟨r, _, ends⟩ | ⟨r, _, ends⟩
  · rw [cleaned_versionToken sortable, cleaned_versionToken sortable'] at tokens
    exact ⟨same, tokens⟩
  · exact absurd ends (cleaned_versionToken_ne sortable' r _)
  · exact absurd ends (cleaned_versionToken_ne sortable r _)

end ApiInventory.Batch
