import ApiInventory.Index.Release
import ApiInventory.Proofs.Symbols.Shapes

/-!
# What a response has to say

A response that is given as an object says what its members say, and only those with known names
count. `States` spells out what a response has to be like to state a version: each known member is
there once, or may be missing, and has the right type. A name that is no text makes an object
unreadable, wherever it stands.
-/

namespace ApiInventory.Index

/-- The members of an object, in their order. -/
abbrev Members := List (Option String × Json)

variable {name : String} {ms : Members} {v : Json}

/-! ## Members with a name -/

/-- All names are texts. -/
def Named (ms : Members) : Prop := ∀ m ∈ ms, m.1.isSome

/-- No member has the name. -/
def Lacks (ms : Members) (name : String) : Prop := ∀ m ∈ ms, m.1 ≠ some name

/-- One member has the name, with this value. -/
def HasOnce (ms : Members) (name : String) (v : Json) : Prop :=
  ∃ before after, ms = before ++ (some name, v) :: after ∧ Lacks before name ∧ Lacks after name

/-- A member may be missing, or else is there once, with a value of some kind. -/
def MayHave (ms : Members) (name : String) (Kind : Json → Prop) : Prop :=
  Lacks ms name ∨ ∃ v, HasOnce ms name v ∧ Kind v

theorem HasOnce.mem (once : HasOnce ms name v) : (some name, v) ∈ ms := by
  obtain ⟨before, after, rfl, -, -⟩ := once
  exact List.mem_append_right before List.mem_cons_self

theorem MayHave.imp {Kind Kind' : Json → Prop} (may : MayHave ms name Kind)
    (kind : ∀ v, (some name, v) ∈ ms → Kind v → Kind' v) : MayHave ms name Kind' := by
  obtain lacks | ⟨v, once, held⟩ := may
  · exact .inl lacks
  · exact .inr ⟨v, once, kind v once.mem held⟩

/-- The values of all members with a name. -/
def valuesOf (ms : Members) (name : String) : List Json :=
  (ms.filter fun m => m.1 = some name).map Prod.snd

theorem valuesOf_eq_nil_iff : valuesOf ms name = [] ↔ Lacks ms name := by
  simp only [valuesOf, Lacks, List.map_eq_nil_iff, List.filter_eq_nil_iff, decide_eq_true_eq, ne_eq]

theorem valuesOf_append (before after : Members) (name : String) :
    valuesOf (before ++ after) name = valuesOf before name ++ valuesOf after name := by
  rw [valuesOf, List.filter_append, List.map_append, valuesOf, valuesOf]

theorem valuesOf_cons_self (name : String) (v : Json) (ms : Members) :
    valuesOf ((some name, v) :: ms) name = v :: valuesOf ms name := by
  simp [valuesOf]

theorem valuesOf_cons_of_ne {m : Option String × Json} (other : m.1 ≠ some name) (ms : Members) :
    valuesOf (m :: ms) name = valuesOf ms name := by
  simp [valuesOf, other]

theorem valuesOf_eq_singleton_iff : valuesOf ms name = [v] ↔ HasOnce ms name v := by
  constructor
  · intro only
    unfold valuesOf at only
    obtain ⟨m, found, rfl⟩ := List.map_eq_singleton_iff.mp only
    obtain ⟨before, after, rfl, others, named, rest⟩ := List.filter_eq_cons_iff.mp found
    refine ⟨before, after, ?_, ?_, ?_⟩
    · rw [← of_decide_eq_true named]
    · exact fun m inside => by simpa using others m inside
    · exact fun m inside => by simpa using List.filter_eq_nil_iff.mp rest m inside
  · rintro ⟨before, after, rfl, ahead, behind⟩
    rw [valuesOf_append, valuesOf_cons_self, valuesOf_eq_nil_iff.mpr ahead,
      valuesOf_eq_nil_iff.mpr behind, List.nil_append]

theorem uniqueMember?_eq_some_iff {m : Option Json} :
    uniqueMember? name ms = some m ↔ valuesOf ms name = m.toList := by
  unfold uniqueMember? valuesOf
  split
  case h_1 none => cases m <;> simp [none]
  case h_2 found only => cases m <;> simp [only]
  case h_3 several => cases m <;> simp [several]

theorem uniqueMember?_eq_none_member_iff : uniqueMember? name ms = some none ↔ Lacks ms name := by
  rw [uniqueMember?_eq_some_iff]
  exact valuesOf_eq_nil_iff

theorem uniqueMember?_eq_member_iff :
    uniqueMember? name ms = some (some v) ↔ HasOnce ms name v := by
  rw [uniqueMember?_eq_some_iff]
  exact valuesOf_eq_singleton_iff

/-! ## Records that are given as objects -/

theorem record?_object_eq_some_iff {names : List String} {values : List (Option Json)} :
    record? names (.object ms) = some values ↔
      Named ms ∧
        List.Forall₂ (fun name value => uniqueMember? name ms = some value) names values := by
  rw [record?, Option.ite_none_right_eq_some, mapM_eq_some_iff, List.all_eq_true]
  rfl

theorem requiredText_eq_some_iff {member : Option Json} {t : String} :
    requiredText member = some t ↔ member = some (Json.text t) := by
  unfold requiredText Json.text
  rcases member with _ | value
  · simp
  · cases value <;> simp [Json.asText?]

theorem isSome_requiredText_iff {member : Option Json} :
    (requiredText member).isSome ↔ ∃ t, member = some (Json.text t) := by
  simp only [Option.isSome_iff_exists, requiredText_eq_some_iff]

/-- A member that may be missing is read if it is missing, or there once and read. -/
theorem mayHave_iff {α : Type} (missing : α) (read? : Json → Option α) :
    MayHave ms name (fun v => (read? v).isSome) ↔
      ∃ member, uniqueMember? name ms = some member ∧ (defaulted missing read? member).isSome := by
  simp only [MayHave, ← uniqueMember?_eq_none_member_iff, ← uniqueMember?_eq_member_iff]
  constructor
  · rintro (lacks | ⟨v, found, read⟩)
    · exact ⟨none, lacks, rfl⟩
    · exact ⟨some v, found, read⟩
  · rintro ⟨_ | v, found, read⟩
    · exact .inl found
    · exact .inr ⟨v, found, read⟩

/-! ## Entries -/

/-- What an object that describes a file has to be like. -/
structure IsEntry (ms : Members) : Prop where
  named : Named ms
  texts : ∀ name ∈ ["filename", "url", "packagetype"], ∃ t, HasOnce ms name (Json.text t)
  yanked : MayHave ms "yanked" fun v => ∃ b, v = .bool b

theorem isSome_asBool?_iff {v : Json} : v.asBool?.isSome ↔ ∃ b, v = .bool b := by
  cases v <;> simp [Json.asBool?]

theorem ReleaseFile.isSome_ofJson?_iff_record? :
    (ReleaseFile.ofJson? v).isSome ↔ ∃ fileName url packageType yanked,
      record? ["filename", "url", "packagetype", "yanked"] v =
        some [fileName, url, packageType, yanked] ∧
      (requiredText fileName).isSome ∧ (requiredText url).isSome ∧
      (requiredText packageType).isSome ∧ (defaulted false Json.asBool? yanked).isSome := by
  unfold ReleaseFile.ofJson?
  split
  · rename_i fileName url packageType yanked found
    simp only [found, Option.some.injEq, List.cons.injEq, and_true]
    constructor
    · intro read
      refine ⟨fileName, url, packageType, yanked, ⟨rfl, rfl, rfl, rfl⟩, ?_⟩
      split at read
      · simp [*]
      · cases read
    · rintro ⟨_, _, _, _, ⟨rfl, rfl, rfl, rfl⟩, first, second, third, fourth⟩
      obtain ⟨_, first⟩ := Option.isSome_iff_exists.mp first
      obtain ⟨_, second⟩ := Option.isSome_iff_exists.mp second
      obtain ⟨_, third⟩ := Option.isSome_iff_exists.mp third
      obtain ⟨_, fourth⟩ := Option.isSome_iff_exists.mp fourth
      simp only [first, second, third, fourth, Option.isSome_some]
  · rename_i other
    simp only [Option.isSome_none, Bool.false_eq_true, false_iff]
    rintro ⟨fileName, url, packageType, yanked, found, -⟩
    exact other fileName url packageType yanked found

theorem ReleaseFile.isSome_ofJson?_iff :
    (ReleaseFile.ofJson? (.object ms)).isSome ↔ IsEntry ms := by
  have yanked : MayHave ms "yanked" (fun v => v.asBool?.isSome) ↔ _ :=
    mayHave_iff false Json.asBool?
  simp only [isSome_asBool?_iff] at yanked
  simp only [isSome_ofJson?_iff_record?, record?_object_eq_some_iff, List.forall₂_cons,
    List.Forall₂.nil, and_true, isSome_requiredText_iff]
  constructor
  · rintro ⟨_, _, _, member, ⟨named, first, second, third, fourth⟩, ⟨t, rfl⟩, ⟨t', rfl⟩, ⟨t'', rfl⟩,
      read⟩
    refine ⟨named, fun name known => ?_, yanked.mpr ⟨member, fourth, read⟩⟩
    simp only [List.mem_cons, List.not_mem_nil, or_false] at known
    obtain rfl | rfl | rfl := known
    · exact ⟨t, uniqueMember?_eq_member_iff.mp first⟩
    · exact ⟨t', uniqueMember?_eq_member_iff.mp second⟩
    · exact ⟨t'', uniqueMember?_eq_member_iff.mp third⟩
  · rintro ⟨named, texts, may⟩
    obtain ⟨t, first⟩ := texts "filename" (by simp)
    obtain ⟨t', second⟩ := texts "url" (by simp)
    obtain ⟨t'', third⟩ := texts "packagetype" (by simp)
    obtain ⟨member, fourth, read⟩ := yanked.mp may
    exact ⟨_, _, _, member, ⟨named, uniqueMember?_eq_member_iff.mpr first,
      uniqueMember?_eq_member_iff.mpr second, uniqueMember?_eq_member_iff.mpr third, fourth⟩,
      ⟨t, rfl⟩, ⟨t', rfl⟩, ⟨t'', rfl⟩, read⟩

/-! ## Responses -/

/-- What the members of a response have to be like to state a version. -/
structure States (ms : Members) (version : String) : Prop where
  named : Named ms
  info : ∃ about, HasOnce ms "info" (.object about) ∧ Named about ∧
    HasOnce about "version" (Json.text version)
  urls : MayHave ms "urls" fun v =>
    ∃ items, v = .array items ∧ ∀ item ∈ items, ∃ entry, item = .object entry ∧ IsEntry entry

/-- Nothing in a response is given as an array that might be given as an object. -/
structure GivenAsObjects (ms : Members) : Prop where
  info : ∀ v, (some "info", v) ∈ ms → ∃ about, v = .object about
  urls : ∀ items, (some "urls", .array items) ∈ ms → ∀ item ∈ items, ∃ entry, item = .object entry

namespace Release

theorem versionOfJson?_eq_some_iff {version : String} :
    versionOfJson? v = some version ↔ record? ["version"] v = some [some (Json.text version)] := by
  unfold versionOfJson?
  split
  · rename_i member found
    simp [found, requiredText_eq_some_iff]
  · rename_i other
    simp only [reduceCtorEq, false_iff]
    exact other _

theorem versionOfJson?_object_eq_some_iff {version : String} :
    versionOfJson? (.object ms) = some version ↔
      Named ms ∧ HasOnce ms "version" (Json.text version) := by
  simp only [versionOfJson?_eq_some_iff, record?_object_eq_some_iff, List.forall₂_cons,
    List.Forall₂.nil, and_true, uniqueMember?_eq_member_iff]

theorem ofJson?_eq_some_iff {r : Release} :
    ofJson? v = some r ↔ ∃ info urls, record? ["info", "urls"] v = some [some info, urls] ∧
      versionOfJson? info = some r.version ∧
      defaulted [] (Json.asList? ReleaseFile.ofJson?) urls = some r.files := by
  unfold ofJson?
  split
  · rename_i info urls found
    simp only [found, Option.some.injEq, List.cons.injEq, and_true]
    constructor
    · intro read
      refine ⟨info, urls, ⟨rfl, rfl⟩, ?_⟩
      split at read
      · rename_i version files stated listed
        cases read
        exact ⟨stated, listed⟩
      · cases read
    · rintro ⟨_, _, ⟨rfl, rfl⟩, stated, listed⟩
      rw [stated, listed]
  · rename_i other
    simp only [reduceCtorEq, false_iff]
    rintro ⟨info, urls, found, -⟩
    exact other info urls found

theorem ofJson?_object_eq_some_iff {r : Release} :
    ofJson? (.object ms) = some r ↔
      Named ms ∧ ∃ info urls, uniqueMember? "info" ms = some (some info) ∧
        uniqueMember? "urls" ms = some urls ∧ versionOfJson? info = some r.version ∧
        defaulted [] (Json.asList? ReleaseFile.ofJson?) urls = some r.files := by
  simp only [ofJson?_eq_some_iff, record?_object_eq_some_iff, List.forall₂_cons, List.Forall₂.nil,
    and_true, and_assoc, exists_and_left]

/-- The items of an array are read as files if each of them is. -/
theorem isSome_asList?_iff {read? : Json → Option ReleaseFile} :
    (Json.asList? read? v).isSome ↔
      ∃ items, v = .array items ∧ ∀ item ∈ items, (read? item).isSome := by
  cases v
  case array items => simp [Json.asList?, isSome_mapM_iff]
  all_goals simp [Json.asList?]

/-- Objects in a response that is decoded are what they have to be, and the other way round. -/
theorem exists_ofJson?_object_iff (given : GivenAsObjects ms) {version : String} :
    (∃ r, ofJson? (.object ms) = some r ∧ r.version = version) ↔ States ms version := by
  constructor
  · rintro ⟨r, read, rfl⟩
    obtain ⟨named, info, urls, foundInfo, foundUrls, stated, listed⟩ :=
      ofJson?_object_eq_some_iff.mp read
    have once := uniqueMember?_eq_member_iff.mp foundInfo
    obtain ⟨about, rfl⟩ := given.info info once.mem
    have may := (mayHave_iff [] (Json.asList? ReleaseFile.ofJson?)).mpr
      ⟨urls, foundUrls, Option.isSome_of_eq_some listed⟩
    refine ⟨named, ⟨about, once, versionOfJson?_object_eq_some_iff.mp stated⟩, may.imp ?_⟩
    intro v member read
    obtain ⟨items, rfl, each⟩ := isSome_asList?_iff.mp read
    refine ⟨items, rfl, fun item inside => ?_⟩
    obtain ⟨entry, rfl⟩ := given.urls items member item inside
    exact ⟨entry, rfl, ReleaseFile.isSome_ofJson?_iff.mp (each _ inside)⟩
  · rintro ⟨named, ⟨about, once, stated⟩, urls⟩
    have may : MayHave ms "urls" fun v => (Json.asList? ReleaseFile.ofJson? v).isSome := by
      apply urls.imp
      rintro v - ⟨items, rfl, each⟩
      refine isSome_asList?_iff.mpr ⟨items, rfl, fun item inside => ?_⟩
      obtain ⟨entry, rfl, isEntry⟩ := each item inside
      exact ReleaseFile.isSome_ofJson?_iff.mpr isEntry
    obtain ⟨member, found, listed⟩ := (mayHave_iff [] (Json.asList? ReleaseFile.ofJson?)).mp may
    obtain ⟨files, listed⟩ := Option.isSome_iff_exists.mp listed
    exact ⟨⟨version, files⟩, ofJson?_object_eq_some_iff.mpr ⟨named, .object about, member,
      uniqueMember?_eq_member_iff.mpr once, found, versionOfJson?_object_eq_some_iff.mpr stated,
      listed⟩, rfl⟩

end Release

end ApiInventory.Index
