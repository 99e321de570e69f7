import ApiInventory.Index.Client
import ApiInventory.Proofs.Batch.RecordNames
import ApiInventory.Proofs.Files.Entries

/-!
# Fetching a file

A fetch asks for the description of a release and then, if the release offers a file, for that
file. `Client.Offers` says which file that is, and `Client.Delivers` what has to be so for a fetch
to deliver it: the file comes to its end, and the directory is there and takes it.

`Client.fetch_contract` says what a fetch amounts to. It delivers one path or none, and the path
leads to a file of the directory, whatever the index calls it. An answer that breaks off can leave
its first part in that place and no trace anywhere else.
-/

namespace ApiInventory.Index

open Files (FileTree Place Entry)
open Files.Path (folder append components)

variable {σ : Type}

/-! ## Asking the web -/

namespace Web

variable (web : Web σ) (s : σ) (url : String)

/-- A text is an address at which the web has something, though it may break off. -/
def Answers (body : ByteArray) (complete : Bool) : Prop :=
  ∃ address status, Address.parse? url = some address ∧
    (web address s).1 = .answered status body complete ∧ status < 400

/-- How the web stands after it was asked for a text. -/
def after : σ := (Address.parse? url).elim s fun address => (web address s).2

theorem get?_snd : (web.get? url s).2 = web.after s url := by
  unfold get? after
  cases Address.parse? url with
  | none => rfl
  | some address =>
      rcases answer : web address s with ⟨_ | ⟨status, body, complete⟩, s'⟩
      all_goals simp [answer]

theorem get?_fst_eq_some_iff {body : ByteArray} {complete : Bool} :
    (web.get? url s).1 = some (body, complete) ↔ web.Answers s url body complete := by
  unfold get? Answers
  cases Address.parse? url with
  | none => simp
  | some address =>
      rcases answer : web address s with ⟨_ | ⟨status, body', complete'⟩, s'⟩
      · simp [answer]
      · by_cases low : status < 400
        · simp [answer, low]
        · simp [answer, low]

theorem get?_of_answer {body : ByteArray} {complete : Bool}
    (answer : web.Answers s url body complete) :
    web.get? url s = (some (body, complete), web.after s url) :=
  Prod.ext ((web.get?_fst_eq_some_iff s url).mpr answer) (web.get?_snd s url)

theorem get?_of_no_answer (none : ∀ body complete, ¬web.Answers s url body complete) :
    web.get? url s = (.none, web.after s url) := by
  apply Prod.ext
  · apply Option.eq_none_iff_forall_ne_some.mpr
    rintro ⟨body, complete⟩ answer
    exact none body complete ((web.get?_fst_eq_some_iff s url).mp answer)
  · exact web.get?_snd s url

/-- The same web, which notes each address that it is asked for behind the ones before. -/
def logged : Web (σ × List Address) := fun address o =>
  ((web address o.1).1, (web address o.1).2, o.2 ++ [address])

/-- What is no address is not asked for. -/
theorem get?_logged (log : List Address) :
    web.logged.get? url (s, log) =
      ((web.get? url s).1, (web.get? url s).2, log ++ (Address.parse? url).toList) := by
  unfold get?
  cases Address.parse? url with
  | none => simp
  | some address =>
      rcases answer : web address s with ⟨_ | ⟨status, body, complete⟩, s'⟩
      all_goals simp [logged, answer]

/-- The web describes a release, and the description comes to its end. -/
def Describes (release : Release) : Prop :=
  ∃ body described, web.Answers s url body true ∧ Json.ofBytes? body = some described ∧
    Release.ofJson? described = some release

end Web

/-! ## The file that is asked for -/

/-- A file of a type that was not yanked. -/
def ReleaseFile.IsOf (type : String) (f : ReleaseFile) : Prop :=
  f.packageType = type ∧ f.isYanked = false

instance (type : String) (f : ReleaseFile) : Decidable (f.IsOf type) :=
  inferInstanceAs (Decidable (_ ∧ _))

/-- The first among some files that is of a type and was not yanked. -/
def IsFirstOf (type : String) (files : List ReleaseFile) (f : ReleaseFile) : Prop :=
  f.IsOf type ∧ ∃ before after, files = before ++ f :: after ∧ ∀ g ∈ before, ¬g.IsOf type

/-- The first wheel, or the first source distribution if no wheel is there. -/
def IsCandidate (files : List ReleaseFile) (f : ReleaseFile) : Prop :=
  IsFirstOf "bdist_wheel" files f ∨
    (∀ g ∈ files, ¬g.IsOf "bdist_wheel") ∧ IsFirstOf "sdist" files f

theorem find?_of_type (type : String) (files : List ReleaseFile) :
    (files.filter fun f => !f.isYanked).find? (fun f => f.packageType = type) =
      files.find? fun f => decide (f.IsOf type) := by
  rw [List.find?_filter]
  apply congrArg (List.find? · files)
  funext f
  simp [ReleaseFile.IsOf, and_comm]

theorem find?_isOf_eq_some_iff {type : String} {files : List ReleaseFile} {f : ReleaseFile} :
    (files.find? fun f => decide (f.IsOf type)) = some f ↔ IsFirstOf type files f := by
  rw [List.find?_eq_some_iff_append]
  simp [IsFirstOf]

theorem find?_isOf_eq_none_iff {type : String} {files : List ReleaseFile} :
    (files.find? fun f => decide (f.IsOf type)) = none ↔ ∀ f ∈ files, ¬f.IsOf type := by
  simp [List.find?_eq_none]

theorem Release.pick?_eq_some_iff {r : Release} {f : ReleaseFile} :
    r.pick? = some f ↔ IsCandidate r.files f := by
  unfold pick? IsCandidate
  dsimp only
  rw [find?_of_type, find?_of_type, Option.or_eq_some_iff, find?_isOf_eq_some_iff,
    find?_isOf_eq_some_iff, find?_isOf_eq_none_iff]

namespace Client

variable (c : Client) (web : Web σ) (package version : String) (t : FileTree) (cwd : Place)
variable (directory : String) (s : σ)

theorem release?_eq_some_iff {url : String} {release : Release} :
    (release? web url s).1 = some release ↔ web.Describes s url release := by
  have answered : ∀ body complete, (web.get? url s).1 = some (body, complete) ↔
      web.Answers s url body complete := fun _ _ => web.get?_fst_eq_some_iff s url
  simp only [release?, Option.bind_eq_some_iff, readRelease?, Prod.exists, answered, Web.Describes,
    Option.ite_none_right_eq_some]
  constructor
  · rintro ⟨body, complete, answer, rfl, described, json, read⟩
    exact ⟨body, described, answer, json, read⟩
  · rintro ⟨body, described, answer, json, read⟩
    exact ⟨body, true, answer, rfl, described, json, read⟩

theorem release?_snd (url : String) : (release? web url s).2 = web.after s url := by
  simp only [release?, Web.get?_snd]

/-- The index has a file of the version to download. -/
def Offers (f : ReleaseFile) : Prop :=
  ∃ release, web.Describes s (c.releaseUrl package (some version)) release ∧
    IsCandidate release.files f

/-- How the web stands after the description was asked for. -/
def afterRelease : σ := web.after s (c.releaseUrl package (some version))

theorem offers_iff {f : ReleaseFile} :
    c.Offers web package version s f ↔
      ((release? web (c.releaseUrl package (some version)) s).1.bind Release.pick?) = some f := by
  rw [Option.bind_eq_some_iff]
  simp only [release?_eq_some_iff, Release.pick?_eq_some_iff, Offers]

theorem Offers.unique {f g : ReleaseFile} (h : c.Offers web package version s f)
    (h' : c.Offers web package version s g) : f = g := by
  rw [offers_iff] at h h'
  exact Option.some.inj (h.symm.trans h')

/-! ## Requests -/

/-- The addresses that a fetch asks for, in their order. -/
def requests : List Address :=
  (c.fetch web.logged package version t cwd directory (s, [])).2.2.2

theorem release?_logged (url : String) (log : List Address) :
    release? web.logged url (s, log) =
      ((release? web url s).1, (release? web url s).2,
        log ++ (Address.parse? url).toList) := by
  simp only [release?, Web.get?_logged]

theorem download_logged (f : ReleaseFile) (log : List Address) :
    download web.logged f t cwd directory (s, log) =
      ((download web f t cwd directory s).1, (download web f t cwd directory s).2.1,
        (download web f t cwd directory s).2.2, log ++ (Address.parse? f.url).toList) := by
  unfold download
  rw [Web.get?_logged]
  rcases web.get? f.url s with ⟨_ | ⟨body, complete⟩, s'⟩
  · rfl
  · dsimp only
    cases t.writeFile cwd (downloadPath directory f) body <;> rfl

/-- A fetch does not notice that its requests are noted. -/
theorem fetch_logged :
    c.fetch web.logged package version t cwd directory (s, []) =
      ((c.fetch web package version t cwd directory s).1,
        (c.fetch web package version t cwd directory s).2.1,
        (c.fetch web package version t cwd directory s).2.2,
        c.requests web package version t cwd directory s) := by
  simp only [requests, fetch, release?_logged]
  cases (release? web (c.releaseUrl package (some version)) s).1.bind Release.pick? with
  | none => simp only
  | some f => simp only [download_logged]

/-- What is asked for after the description. -/
theorem requests_eq :
    c.requests web package version t cwd directory s =
      (Address.parse? (c.releaseUrl package (some version))).toList ++
        (((release? web (c.releaseUrl package (some version)) s).1.bind Release.pick?).bind
          fun f => Address.parse? f.url).toList := by
  simp only [requests, fetch, release?_logged]
  cases (release? web (c.releaseUrl package (some version)) s).1.bind Release.pick? with
  | none => simp
  | some f => simp [download_logged]

/-! ## Ways to end -/

/-- The index sends the file that it offers, as far as it goes, and the directory takes it. -/
structure Receives (f : ReleaseFile) (body : ByteArray) (complete : Bool) (home : Place) :
    Prop where
  offer : c.Offers web package version s f
  answer : web.Answers (c.afterRelease web package version s) f.url body complete
  found : t.find cwd (folder directory) = .ok (home, .directory)
  takes : t.Takes home (Batch.cleaned f.fileName)

section End

variable {c web package version t cwd directory s}

/-- The index has nothing to download. -/
theorem fetch_of_no_offer (none : ∀ f, ¬c.Offers web package version s f) :
    c.fetch web package version t cwd directory s =
      ([], t, c.afterRelease web package version s) := by
  have nothing : (release? web (c.releaseUrl package (some version)) s).1.bind Release.pick? =
      .none := by
    apply Option.eq_none_iff_forall_ne_some.mpr
    intro f picked
    exact none f ((c.offers_iff web package version s).mpr picked)
  simp only [fetch, nothing, release?_snd, afterRelease]

theorem fetch_of_offer {f : ReleaseFile} (offer : c.Offers web package version s f) :
    c.fetch web package version t cwd directory s =
      download web f t cwd directory (c.afterRelease web package version s) := by
  simp only [fetch, (c.offers_iff web package version s).mp offer, release?_snd, afterRelease]

theorem download_of_no_answer {f : ReleaseFile}
    (none : ∀ body complete, ¬web.Answers s f.url body complete) :
    download web f t cwd directory s = ([], t, web.after s f.url) := by
  simp only [download, web.get?_of_no_answer s f.url none]

theorem download_of_answer {f : ReleaseFile} {body : ByteArray} {complete : Bool}
    (answer : web.Answers s f.url body complete) :
    download web f t cwd directory s =
      match t.writeFile cwd (downloadPath directory f) body with
      | .error _ => ([], t, web.after s f.url)
      | .ok t => (if complete then [downloadPath directory f] else [], t, web.after s f.url) := by
  have read := web.get?_of_answer s f.url answer
  cases written : t.writeFile cwd (downloadPath directory f) body with
  | error e => simp only [download, read, written]
  | ok t => simp only [download, read, written]

section Plain

variable (plain : ∀ home, t.find cwd (folder directory) = .ok (home, .directory) →
  ∀ name target, t.get? (home ++ [name]) ≠ some (.link target))
variable (grounded : t.Grounded) (start : t.get? cwd = some .directory)
include plain grounded start

theorem fetch_of_receives {f : ReleaseFile} {body : ByteArray} {complete : Bool} {home : Place}
    (h : c.Receives web package version t cwd directory s f body complete home) :
    c.fetch web package version t cwd directory s =
      (if complete then [downloadPath directory f] else [],
        t.set (home ++ [Batch.cleaned f.fileName]) (.file body),
        web.after (c.afterRelease web package version s) f.url) := by
  have entry := Batch.isEntryName_cleaned f.fileName
  have written : t.writeFile cwd (downloadPath directory f) body =
      .ok (t.set (home ++ [Batch.cleaned f.fileName]) (.file body)) :=
    (FileTree.writeFile_append_eq_ok_iff entry (fun home found => plain home found _) grounded
      start).mpr ⟨home, h.found, h.takes, rfl⟩
  rw [fetch_of_offer h.offer, download_of_answer h.answer, written]

/-- Without a file to receive, nothing is delivered and nothing changed. -/
theorem fetch_of_not_receives
    (none : ∀ f body complete home,
      ¬c.Receives web package version t cwd directory s f body complete home) :
    (c.fetch web package version t cwd directory s).1 = [] ∧
      (c.fetch web package version t cwd directory s).2.1 = t := by
  by_cases offered : ∃ f, c.Offers web package version s f
  · obtain ⟨f, offer⟩ := offered
    rw [fetch_of_offer offer]
    by_cases answered : ∃ body complete,
        web.Answers (c.afterRelease web package version s) f.url body complete
    · obtain ⟨body, complete, answer⟩ := answered
      rw [download_of_answer answer]
      cases written : t.writeFile cwd (downloadPath directory f) body with
      | error e => exact ⟨rfl, rfl⟩
      | ok t' =>
          obtain ⟨home, found, takes, -⟩ := (FileTree.writeFile_append_eq_ok_iff
            (Batch.isEntryName_cleaned f.fileName) (fun home found => plain home found _) grounded
            start).mp written
          exact absurd ⟨offer, answer, found, takes⟩ (none f body complete home)
    · rw [download_of_no_answer fun body complete answer =>
        answered ⟨body, complete, answer⟩]
      exact ⟨rfl, rfl⟩
  · rw [fetch_of_no_offer fun f offer =>
      offered ⟨f, offer⟩]
    exact ⟨rfl, rfl⟩

end Plain

end End

/-! ## What a fetch amounts to -/

/-- What a fetch asks for, what it delivers and what it does to the files. -/
structure FetchContract : Prop where
  /-- The description is asked for, and then at most one more: the file that is offered. -/
  requests : ∃ further : Option Address,
    c.requests web package version t cwd directory s =
      (Address.parse? (c.releaseUrl package (some version))).toList ++ further.toList ∧
    ∀ address, further = some address ↔
      ∃ f, c.Offers web package version s f ∧ Address.parse? f.url = some address
  /-- A file that comes to its end is delivered: one path, that of an entry of the directory, which
  holds what was sent. -/
  delivers : ∀ f body home, c.Receives web package version t cwd directory s f body true home →
    let path := append directory (Batch.cleaned f.fileName)
    let left := (c.fetch web package version t cwd directory s).2.1
    (c.fetch web package version t cwd directory s).1 = [path] ∧
      components path =
        components directory ++ [.normal (Batch.cleaned f.fileName)] ∧
      left.find cwd path = .ok (home ++ [Batch.cleaned f.fileName], .file body) ∧
      left.read cwd path = .ok body
  /-- Otherwise nothing is delivered. -/
  otherwise : (∀ f body home,
      ¬c.Receives web package version t cwd directory s f body true home) →
    (c.fetch web package version t cwd directory s).1 = []
  /-- If anything is changed, then it is the entry of the directory that has the name of the file,
  and it holds what was sent. -/
  changes : ∀ p, (c.fetch web package version t cwd directory s).2.1.get? p ≠ t.get? p →
    ∃ f body complete home, c.Receives web package version t cwd directory s f body complete home ∧
      p = home ++ [Batch.cleaned f.fileName] ∧
      (c.fetch web package version t cwd directory s).2.1.get? p = some (.file body)

/-- **What a fetch amounts to.** -/
theorem fetch_contract (grounded : t.Grounded) (start : t.get? cwd = some .directory)
    (plain : ∀ home, t.find cwd (folder directory) = .ok (home, .directory) →
      ∀ name target, t.get? (home ++ [name]) ≠ some (.link target)) :
    c.FetchContract web package version t cwd directory s := by
  constructor
  case requests =>
    refine ⟨_, requests_eq c web package version t cwd directory s, fun address => ?_⟩
    rw [Option.bind_eq_some_iff]
    simp only [offers_iff]
  case delivers =>
    intro f body home receives
    have entry := Batch.isEntryName_cleaned f.fileName
    have noLink := fun home found => plain home found (Batch.cleaned f.fileName)
    dsimp only
    rw [fetch_of_receives plain grounded start receives]
    exact ⟨rfl, Files.Path.components_entryPath entry,
      FileTree.find_append_of_set entry noLink receives.found receives.takes,
      FileTree.read_append_of_set entry noLink receives.found receives.takes⟩
  case otherwise =>
    intro none
    by_cases received : ∃ f body complete home,
        c.Receives web package version t cwd directory s f body complete home
    · obtain ⟨f, body, complete, home, receives⟩ := received
      rw [fetch_of_receives plain grounded start receives]
      cases complete with
      | false => rfl
      | true => exact absurd receives (none f body home)
    · exact (fetch_of_not_receives plain grounded start
        fun f body complete home receives =>
          received ⟨f, body, complete, home, receives⟩).1
  case changes =>
    intro p changed
    by_cases received : ∃ f body complete home,
        c.Receives web package version t cwd directory s f body complete home
    · obtain ⟨f, body, complete, home, receives⟩ := received
      have ended := fetch_of_receives plain grounded start
        receives
      rw [ended, FileTree.get?_set _ _ _ _ (by simp)] at changed ⊢
      split at changed
      · rename_i here
        exact ⟨f, body, complete, home, receives, here, if_pos here⟩
      · exact absurd rfl changed
    · have same := (fetch_of_not_receives plain grounded
        start fun f body complete home receives =>
          received ⟨f, body, complete, home, receives⟩).2
      exact absurd (by rw [same]) changed

/-- An index that offers a source distribution and, behind it, a wheel whose name leads out of the
directory. -/
def sampleIndex : Web Unit := fun address _ =>
  let description :=
    "[[\"1\"], [[\"a\", \"http://i/a\", \"sdist\"], [\"../b\", \"http://i/b\", \"bdist_wheel\"]]]"
  (.answered 200 (Text.encode (if address.path = "/p/1/json" then description else "wheel")) true,
    ())

def sampleArea : FileTree := ⟨[(["d"], .directory), (["d", "c"], .directory)], []⟩

/-- The wheel is delivered, and it stays in the directory. -/
theorem fetch_contract_of_sampleIndex :
    sampleArea.Grounded ∧ sampleArea.get? [] = some .directory ∧
      (∀ home, sampleArea.find [] (folder "d") = .ok (home, .directory) →
        ∀ name target, sampleArea.get? (home ++ [name]) ≠ some (.link target)) ∧
      FetchContract ⟨"http://i/"⟩ sampleIndex "p" "1" sampleArea [] "d" () ∧
      (fetch ⟨"http://i/"⟩ sampleIndex "p" "1" sampleArea [] "d" ()).1 = ["d/.._b"] := by
  have grounded : sampleArea.Grounded := FileTree.grounded_of_entries (by decide)
  have noLinks : sampleArea.NoLinks := FileTree.noLinks_of_entries (by simp [sampleArea])
  have plain : ∀ home, sampleArea.find [] (folder "d") = .ok (home, .directory) →
      ∀ name target, sampleArea.get? (home ++ [name]) ≠ some (.link target) :=
    fun home _ name target => noLinks (home ++ [name]) target
  have contract := fetch_contract ⟨"http://i/"⟩ sampleIndex "p" "1" sampleArea [] "d" () grounded
    rfl plain
  have offer : Offers ⟨"http://i/"⟩ sampleIndex "p" "1" ()
      ⟨"../b", "http://i/b", "bdist_wheel", false⟩ :=
    (offers_iff _ _ _ _ _).mpr (by decide +kernel)
  have answer : sampleIndex.Answers () "http://i/b" (Text.encode "wheel") true :=
    (Web.get?_fst_eq_some_iff _ _ _).mp (by decide +kernel)
  have found : sampleArea.find [] (folder "d") = .ok (["d"], .directory) := by cbv
  have takes : sampleArea.Takes ["d"] (Batch.cleaned "../b") :=
    ⟨by decide, by decide +kernel, by decide +kernel⟩
  have path : append "d" (Batch.cleaned "../b") = "d/.._b" := by decide +kernel
  have delivered := (contract.delivers _ _ _ ⟨offer, answer, found, takes⟩).1
  exact ⟨grounded, rfl, plain, contract, delivered.trans (congrArg (fun p => [p]) path)⟩

end Client

end ApiInventory.Index
