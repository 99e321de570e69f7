import ApiInventory.Proofs.Index.Fetch
import ApiInventory.Proofs.Index.Members
import ApiInventory.Proofs.Json.Tokens

/-!
# Layouts of a response

An index may lay out what it says in many ways: with blanks between the tokens, with the members of
an object in any order, with members that no client knows (`Alike`). A client makes the same of all
of them (`Client.layout_contract`): its latest version, the file that it picks and what it downloads
depend on the contents alone.

A client has to know the name of a member to pass over it, so that each name is a text even where
its member does not count. In JSON a name can be half of a surrogate pair, which is none
(`Client.resolve_of_oddBody`).
-/

namespace ApiInventory.Index

variable {ms ns : Members} {v w : Json}

/-! ## Rearranged members -/

/-- Members change places, come in with a name that is not known, or have a value that is the same
to those who read it. -/
inductive Rearranged (known : List String) (Same : String → Json → Json → Prop) :
    Members → Members → Prop
  | permuted {ms ns : Members} (perm : ms.Perm ns) : Rearranged known Same ms ns
  | added {name : String} (unknown : name ∉ known) (before after : Members) (v : Json) :
      Rearranged known Same (before ++ after) (before ++ (some name, v) :: after)
  | inside {name : String} {v w : Json} (same : Same name v w) (before after : Members) :
      Rearranged known Same (before ++ (some name, v) :: after) (before ++ (some name, w) :: after)
  | symm {ms ns : Members} : Rearranged known Same ms ns → Rearranged known Same ns ms
  | trans {ms ns os : Members} : Rearranged known Same ms ns → Rearranged known Same ns os →
      Rearranged known Same ms os

/-- Both values are objects, and they differ by the arrangement of their members. -/
def SameObject (known : List String) (Same : String → Json → Json → Prop) (v w : Json) : Prop :=
  ∃ ms ns, v = .object ms ∧ w = .object ns ∧ Rearranged known Same ms ns

namespace Rearranged

variable {known : List String} {Same : String → Json → Json → Prop}

theorem named (h : Rearranged known Same ms ns) : Named ms ↔ Named ns := by
  induction h with
  | permuted perm => simp only [Named, perm.mem_iff]
  | added unknown before after v => simp [Named, or_imp, forall_and]
  | inside same before after => simp [Named, or_imp, forall_and]
  | symm _ ih => exact ih.symm
  | trans _ _ first second => exact first.trans second

section Known

variable {α : Type} {name : String} {read : Json → α}
variable (isKnown : name ∈ known) (agree : ∀ v w, Same name v w → read v = read w)
include isKnown agree

/-- The values of a known name stay, as far as they are read, but may change places. -/
theorem map_valuesOf_perm (h : Rearranged known Same ms ns) :
    ((valuesOf ms name).map read).Perm ((valuesOf ns name).map read) := by
  induction h with
  | permuted perm => exact ((perm.filter _).map _).map _
  | @added other unknown before after v =>
      have ne : some other ≠ some name := fun same => unknown (Option.some.inj same ▸ isKnown)
      rw [valuesOf_append, valuesOf_append, valuesOf_cons_of_ne ne]
  | @inside other v w same before after =>
      simp only [valuesOf_append, List.map_append]
      by_cases here : other = name
      · subst here
        rw [valuesOf_cons_self, valuesOf_cons_self, List.map_cons, List.map_cons, agree v w same]
      · have ne : some other ≠ some name := fun same => here (Option.some.inj same)
        rw [valuesOf_cons_of_ne ne, valuesOf_cons_of_ne ne]
  | symm _ ih => exact ih.symm
  | trans _ _ first second => exact first.trans second

theorem exists_uniqueMember? (h : Rearranged known Same ms ns) {member : Option Json}
    (found : uniqueMember? name ms = some member) :
    ∃ member', uniqueMember? name ns = some member' ∧ member'.map read = member.map read := by
  have perm := h.map_valuesOf_perm isKnown agree
  rw [uniqueMember?_eq_some_iff.mp found] at perm
  cases member with
  | none =>
      have empty := List.map_eq_nil_iff.mp (List.nil_perm.mp perm)
      exact ⟨none, uniqueMember?_eq_some_iff.mpr empty, rfl⟩
  | some v =>
      obtain ⟨w, only, same⟩ := List.map_eq_singleton_iff.mp (List.singleton_perm.mp perm).symm
      exact ⟨some w, uniqueMember?_eq_some_iff.mpr only, congrArg some same⟩

end Known

/-- Where no values change, a known name has the same value. -/
theorem uniqueMember?_of_eq_some {name : String} (h : Rearranged known (fun _ => Eq) ms ns)
    (isKnown : name ∈ known) {member : Option Json} (found : uniqueMember? name ms = some member) :
    uniqueMember? name ns = some member := by
  have agree : ∀ v w : Json, v = w → id v = id w := fun _ _ same => same
  obtain ⟨member', found', same⟩ := h.exists_uniqueMember? isKnown agree found
  rw [Option.map_id_fun, id_eq, id_eq] at same
  rwa [← same]

end Rearranged

/-! ## Readers -/

theorem mapM_eq_mapM {α β γ : Type} {read : α → Option γ} {read' : β → Option γ} {xs : List α}
    {ys : List β} (same : List.Forall₂ (fun x y => read x = read' y) xs ys) :
    xs.mapM read = ys.mapM read' := by
  induction same with
  | nil => rfl
  | cons first _ ih => rw [List.mapM_cons, List.mapM_cons, first, ih]

/-- Where no values change, a record is the same in any arrangement. -/
theorem SameObject.record? {known : List String} (same : SameObject known (fun _ => Eq) v w) :
    record? known v = record? known w := by
  obtain ⟨ms, ns, rfl, rfl, h⟩ := same
  have names : (ms.all fun m => m.1.isSome) = ns.all fun m => m.1.isSome := by
    rw [Bool.eq_iff_iff, List.all_eq_true, List.all_eq_true]
    exact h.named
  have members : ∀ name ∈ known, uniqueMember? name ms = uniqueMember? name ns := by
    intro name isKnown
    ext member
    constructor
    · exact h.uniqueMember?_of_eq_some isKnown
    · exact h.symm.uniqueMember?_of_eq_some isKnown
  simp only [Index.record?, names, mapM_eq_mapM (List.forall₂_same.mpr members)]

/-! ## Responses -/

/-- Lists of files that differ, item by item, by the arrangement of members. -/
def SameFiles (v w : Json) : Prop :=
  ∃ es fs, v = .array es ∧ w = .array fs ∧ List.Forall₂ (fun e f => e = f ∨
    SameObject ["filename", "url", "packagetype", "yanked"] (fun _ => Eq) e f) es fs

/-- What describes the project and what lists the files may be arranged otherwise, too. -/
def SameInside (name : String) (v w : Json) : Prop :=
  (name = "info" ∧ SameObject ["version"] (fun _ => Eq) v w) ∨ (name = "urls" ∧ SameFiles v w)

/-- Two responses that differ by the arrangement of members in the objects that are read. -/
def SameResponse : Json → Json → Prop := SameObject ["info", "urls"] SameInside

theorem SameInside.versionOfJson? (same : SameInside "info" v w) :
    Release.versionOfJson? v = Release.versionOfJson? w := by
  obtain ⟨-, same⟩ | ⟨other, -⟩ := same
  · simp only [Release.versionOfJson?, same.record?]
  · exact absurd other (by decide)

theorem SameInside.asList? (same : SameInside "urls" v w) :
    Json.asList? ReleaseFile.ofJson? v = Json.asList? ReleaseFile.ofJson? w := by
  obtain ⟨other, -⟩ | ⟨-, es, fs, rfl, rfl, same⟩ := same
  · exact absurd other (by decide)
  · apply mapM_eq_mapM
    apply same.imp
    rintro e f (rfl | same)
    · rfl
    · simp only [ReleaseFile.ofJson?, same.record?]

theorem defaulted_eq_getD {α : Type} (missing : α) (read? : Json → Option α)
    (member : Option Json) :
    defaulted missing read? member = (member.map read?).getD (some missing) := by
  cases member <;> rfl

theorem SameResponse.symm (same : SameResponse v w) : SameResponse w v := by
  obtain ⟨ms, ns, first, second, h⟩ := same
  exact ⟨ns, ms, second, first, h.symm⟩

theorem SameResponse.ofJson?_of_eq_some (same : SameResponse v w) {r : Release}
    (read : Release.ofJson? v = some r) : Release.ofJson? w = some r := by
  obtain ⟨ms, ns, rfl, rfl, h⟩ := same
  obtain ⟨named, info, urls, foundInfo, foundUrls, stated, listed⟩ :=
    Release.ofJson?_object_eq_some_iff.mp read
  obtain ⟨info', foundInfo', sameInfo⟩ := h.exists_uniqueMember? (by simp)
    (fun _ _ => SameInside.versionOfJson?) foundInfo
  obtain ⟨urls', foundUrls', sameUrls⟩ := h.exists_uniqueMember? (by simp)
    (fun _ _ => SameInside.asList?) foundUrls
  rw [Option.map_some, stated] at sameInfo
  obtain ⟨info', rfl, stated'⟩ := Option.map_eq_some_iff.mp sameInfo
  refine Release.ofJson?_object_eq_some_iff.mpr ⟨h.named.mp named, info', urls', foundInfo',
    foundUrls', stated', ?_⟩
  rw [defaulted_eq_getD, sameUrls, ← defaulted_eq_getD, listed]

/-- A release does not depend on how a response arranges what it says. -/
theorem SameResponse.ofJson? (same : SameResponse v w) : Release.ofJson? v = Release.ofJson? w := by
  ext r
  constructor
  · exact same.ofJson?_of_eq_some
  · exact same.symm.ofJson?_of_eq_some

/-! ## Bodies -/

/-- Bodies that say the same in another layout: there are other blanks between their tokens, or they
are responses with another arrangement of members, or both. -/
inductive Alike : ByteArray → ByteArray → Prop
  | spaced {a b : ByteArray}
      (same : Json.tokens (Text.marked a.toList) = Json.tokens (Text.marked b.toList)) : Alike a b
  | arranged {a b : ByteArray} {v w : Json} (first : Json.ofBytes? a = some v)
      (second : Json.ofBytes? b = some w) (same : SameResponse v w) : Alike a b
  | trans {a b c : ByteArray} : Alike a b → Alike b c → Alike a c

theorem Alike.release {a b : ByteArray} (alike : Alike a b) :
    (Json.ofBytes? a).bind Release.ofJson? = (Json.ofBytes? b).bind Release.ofJson? := by
  induction alike with
  | spaced same => rw [Json.ofBytes?, Json.ofBytes?, Json.read?_congr same]
  | arranged first second same =>
      rw [first, second, Option.bind_some, Option.bind_some, same.ofJson?]
  | trans _ _ first second => exact first.trans second

/-! ## Webs -/

variable {σ : Type}

/-- Two webs answer a text with bodies that are alike, and otherwise in the same way. -/
def Web.Relays (web web' : Web σ) (s : σ) (url : String) : Prop :=
  ∃ address status body body' complete after, Address.parse? url = some address ∧
    web address s = (.answered status body complete, after) ∧
    web' address s = (.answered status body' complete, after) ∧ Alike body body'

theorem Web.Relays.release? {web web' : Web σ} {s : σ} {url : String}
    (relays : web.Relays web' s url) : Client.release? web url s = Client.release? web' url s := by
  obtain ⟨address, status, body, body', complete, after, parsed, answer, answer', alike⟩ := relays
  have same : Client.readRelease? (body, complete) = Client.readRelease? (body', complete) := by
    simp only [Client.readRelease?, alike.release]
  simp only [Client.release?, Web.get?, parsed, answer, answer']
  by_cases low : status < 400
  · simp only [low, if_true, Option.bind_some, same]
  · simp only [low, if_false, Option.bind_none]

/-- A web that has answered describes what is read from the answer, and nothing else. -/
theorem Web.describes_iff {web : Web σ} {s : σ} {url : String} {body : ByteArray} {v : Json}
    {r : Release} (answer : web.Answers s url body true) (read : Json.ofBytes? body = some v) :
    web.Describes s url r ↔ Release.ofJson? v = some r := by
  constructor
  · rintro ⟨body', w, answer', read', release⟩
    have same := ((web.get?_fst_eq_some_iff s url).mpr answer).symm.trans
      ((web.get?_fst_eq_some_iff s url).mpr answer')
    cases same
    cases read.symm.trans read'
    exact release
  · intro release
    exact ⟨body, v, answer, read, release⟩

/-! ## Clients -/

namespace Client

variable (c : Client) (package : String)

theorem resolve_eq_some_iff {web : Web σ} {s : σ} {version : String} :
    (c.resolve web package s).1 = some version ↔
      ∃ r, web.Describes s (c.releaseUrl package none) r ∧ version = Text.trimmed r.version ∧
        version ≠ "" := by
  simp only [resolve, Option.bind_eq_some_iff, release?_eq_some_iff, Release.statedVersion?,
    Option.ite_none_left_eq_some, Option.some.injEq]
  constructor
  · rintro ⟨r, described, left, rfl⟩
    exact ⟨r, described, rfl, left⟩
  · rintro ⟨r, described, rfl, left⟩
    exact ⟨r, described, left, rfl⟩

/-- What a client makes of a response, however the index lays it out. -/
structure LayoutContract : Prop where
  /-- The latest version does not depend on the layout. -/
  resolve : ∀ {σ : Type} (web web' : Web σ) (s : σ),
    web.Relays web' s (c.releaseUrl package none) →
    c.resolve web package s = c.resolve web' package s
  /-- Nor does the file that is picked, or what is asked for. -/
  picks : ∀ {σ : Type} (web web' : Web σ) (s : σ) (version : String),
    web.Relays web' s (c.releaseUrl package (some version)) →
    (∀ f, c.Offers web package version s f ↔ c.Offers web' package version s f) ∧
    ∀ t cwd directory, c.requests web package version t cwd directory s =
      c.requests web' package version t cwd directory s
  /-- So the same is downloaded, if the two webs have the same file. -/
  downloads : ∀ {σ : Type} (web web' : Web σ) (s : σ) (version : String),
    web.Relays web' s (c.releaseUrl package (some version)) →
    (∀ f, c.Offers web package version s f →
      web.get? f.url (c.afterRelease web package version s) =
        web'.get? f.url (c.afterRelease web package version s)) →
    ∀ t cwd directory, c.fetch web package version t cwd directory s =
      c.fetch web' package version t cwd directory s
  /-- A text that spells a value, in any layout, is read as that value. -/
  reads : ∀ (text : String) (v : Json), Json.SpellsPadded text.toList v →
    Json.ofBytes? (Text.encode text) = some v
  /-- The latest version is what a response states, if that is not blank. -/
  states : ∀ {σ : Type} (web : Web σ) (s : σ) (body : ByteArray) (ms : Members) (version : String),
    web.Answers s (c.releaseUrl package none) body true → Json.ofBytes? body = some (.object ms) →
    GivenAsObjects ms → ((c.resolve web package s).1 = some version ↔
      ∃ stated, States ms stated ∧ version = Text.trimmed stated ∧ version ≠ "")

theorem layout_contract : c.LayoutContract package := by
  constructor
  case resolve =>
    intro σ web web' s relays
    simp only [Client.resolve, relays.release?]
  case picks =>
    intro σ web web' s version relays
    constructor
    · intro f
      rw [offers_iff, offers_iff, relays.release?]
    · intro t cwd directory
      rw [requests_eq, requests_eq, relays.release?]
  case downloads =>
    intro σ web web' s version relays sameFile t cwd directory
    simp only [fetch, ← relays.release?]
    cases picked : (release? web (c.releaseUrl package (some version)) s).1.bind Release.pick? with
    | none => rfl
    | some f =>
        have file := sameFile f ((c.offers_iff web package version s).mpr picked)
        rw [afterRelease, ← release?_snd] at file
        simp only [download, file]
  case reads =>
    intro text v spells
    rw [Json.ofBytes?_encode]
    exact (Json.ofText?_iff_spellsPadded.mpr spells).1
  case states =>
    intro σ web s body ms version answer read given
    rw [resolve_eq_some_iff]
    constructor
    · rintro ⟨r, described, rest⟩
      have release := (Web.describes_iff answer read).mp described
      exact ⟨r.version, (Release.exists_ofJson?_object_iff given).mp ⟨r, release, rfl⟩, rest⟩
    · rintro ⟨stated, states, rest⟩
      obtain ⟨r, release, rfl⟩ := (Release.exists_ofJson?_object_iff given).mpr states
      exact ⟨r, (Web.describes_iff answer read).mpr release, rest⟩

/-- A web that answers whatever it is asked for with one body. -/
def saying (body : String) : Web Unit := fun _ _ => (.answered 200 (Text.encode body) true, ())

def shortBody : String := "\x7b\"info\":\x7b\"version\":\" 1\"\x7d,\"urls\":[]\x7d"

/-- The same response in another layout. -/
def longBody : String :=
  "\x7b \"urls\": [], \"n\": [null],\n \"info\": \x7b\"name\": \"p\", \"version\": \" 1\"\x7d\x7d\n"

/-- The version is stated in either layout. -/
theorem layout_contract_of_longBody :
    (saying shortBody).Relays (saying longBody) () (releaseUrl ⟨"http://i"⟩ "p" none) ∧
      (resolve ⟨"http://i"⟩ (saying shortBody) "p" ()).1 = some "1" ∧
      (resolve ⟨"http://i"⟩ (saying longBody) "p" ()).1 = some "1" := by
  let version : Option String × Json := (some "version", .text " 1")
  let urls : Option String × Json := (some "urls", .array [])
  have short : Json.ofBytes? (Text.encode shortBody) =
      some (.object [(some "info", .object [version]), urls]) := by
    rw [Json.ofBytes?_encode]
    cbv
  have long : Json.ofBytes? (Text.encode longBody) =
      some (.object [urls, (some "n", .array [.null]),
        (some "info", .object [(some "name", .text "p"), version])]) := by
    rw [Json.ofBytes?_encode]
    cbv
  have info : SameInside "info" (.object [version]) (.object [(some "name", .text "p"), version]) :=
    .inl ⟨rfl, _, _, rfl, rfl, .added (by decide) [] [version] (.text "p")⟩
  have same : SameResponse (.object [(some "info", .object [version]), urls])
      (.object [urls, (some "n", .array [.null]),
        (some "info", .object [(some "name", .text "p"), version])]) := by
    refine ⟨_, _, rfl, rfl, ?_⟩
    apply Rearranged.trans (.inside info [] [urls])
    apply Rearranged.trans (.permuted (.swap urls _ []))
    exact .added (by decide) [urls] [_] (.array [.null])
  have parsed : Address.parse? (releaseUrl ⟨"http://i"⟩ "p" none) =
      some ⟨false, "i", 80, "/p/json", none⟩ := by decide +kernel
  have relays : (saying shortBody).Relays (saying longBody) ()
      (releaseUrl ⟨"http://i"⟩ "p" none) :=
    ⟨_, 200, Text.encode shortBody, Text.encode longBody, true, (), parsed, rfl, rfl,
      .arranged short long same⟩
  have states : States [(some "info", .object [version]), urls] " 1" := by
    constructor
    case named => simp [Named, urls]
    case info =>
      have first : HasOnce [(some "info", .object [version]), urls] "info" (.object [version]) :=
        ⟨[], [urls], rfl, by simp [Lacks], by simp [Lacks, urls]⟩
      exact ⟨[version], first, by simp [Named, version],
        ⟨[], [], rfl, by simp [Lacks], by simp [Lacks]⟩⟩
    case urls =>
      have last : HasOnce [(some "info", .object [version]), urls] "urls" (.array []) :=
        ⟨[_], [], rfl, by simp [Lacks], by simp [Lacks]⟩
      exact .inr ⟨.array [], last, [], rfl, by simp⟩
  have given : GivenAsObjects [(some "info", .object [version]), urls] := by
    constructor
    case info => simp [urls]
    case urls => simp [urls]
  have contract := layout_contract ⟨"http://i"⟩ "p"
  have answer : (saying shortBody).Answers () (releaseUrl ⟨"http://i"⟩ "p" none)
      (Text.encode shortBody) true := ⟨_, 200, parsed, rfl, by decide⟩
  have resolved := (contract.states _ _ _ _ "1" answer short given).mpr
    ⟨" 1", states, by decide +kernel, by decide⟩
  exact ⟨relays, resolved, contract.resolve _ _ _ relays ▸ resolved⟩

/-- A body with one more member, whose name is half of a surrogate pair. -/
def oddBody : String := "\x7b\"info\":\x7b\"version\":\" 1\"\x7d,\"urls\":[],\"\\ud800\":0\x7d"

/-- No client knows a member with such a name, but none can do without its name. -/
theorem resolve_of_oddBody :
    Json.ofBytes? (Text.encode shortBody) = some (.object
        [(some "info", .object [(some "version", .text " 1")]), (some "urls", .array [])]) ∧
      Json.ofBytes? (Text.encode oddBody) = some (.object
        [(some "info", .object [(some "version", .text " 1")]), (some "urls", .array []),
          (none, .number "0")]) ∧
      (resolve ⟨"http://i"⟩ (saying shortBody) "p" ()).1 = some "1" ∧
      (resolve ⟨"http://i"⟩ (saying oddBody) "p" ()).1 = none := by
  rw [Json.ofBytes?_encode, Json.ofBytes?_encode]
  refine ⟨?_, ?_, ?_, ?_⟩
  · cbv
  · cbv
  · decide +kernel
  · decide +kernel

end Client

end ApiInventory.Index
