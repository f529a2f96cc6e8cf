import FederationGraph.Proofs.CommandLine.History

/-!
# Runs keep stored analyses coherent

After every history of runs on stores at one place, asking changes nothing, nor
does analyzing what is stored already or what cannot be read; and an analysis that
is made is known until it is replaced, whatever happens to the files of its schema.
It is loaded for an answer exactly if its stored text is accepted.
-/
namespace FederationGraph.CommandLine

open FileTree Store

/-- What runs do in a session whose stores lead to a place: commands that ask, an analysis that is
stored already and a schema that cannot be read leave the session as it is; an analysis that is made
is known after all events that do not replace it, and its reading is decided by its text. -/
structure Coherent (place : Location) (ids : Set String) (s : Session) : Prop where
  asking : ∀ words name, opensLog words = false → commandName? words = some name →
    name ∈ askingNames → (run s words).1 = s
  stored : ∀ words v schema subgraph, opensLog words = false → invocation? s words = some v →
    v.request = .analyze schema false subgraph →
      v.store.has s.files (s.identifier schema) = true → (run s words).1 = s
  unread : ∀ words v schema force subgraph, opensLog words = false →
    invocation? s words = some v → v.request = .analyze schema force subgraph →
      (¬ ∃ text document, Finds s schema text document) → (run s words).1 = s
  known : ∀ words v id a, (Event.run words).KeepsTo place ids s → invocation? s words = some v →
    Analyzes s v id a → ∀ later, KeepTo place ids (run s words).1 later →
      Retain id (run s words).1 later → Known place (after (run s words).1 later) id a
  loaded : ∀ v id a, s.now.Proper → Analyzes s v id a →
    (Json.Storable a.toValue → reloaded a = .ok a.finitePart) ∧
    (¬ Json.Storable a.toValue → reloaded a = answerOf (.refuse .jsonInvalid))

variable {place : Location} {ids : Set String} {s : Session} {words : List String}
  {v : Invocation} {id : String} {a : Analysis}

/-! ## An analysis that is made -/

theorem Analyzes.mem_ids (hkeeps : (Event.run words).KeepsTo place ids s)
    (hv : invocation? s words = some v) (h : Analyzes s v id a) : id ∈ ids := by
  cases h with
  | intro hrequest => exact (hkeeps.2 v hv).2 _ _ _ hrequest

theorem Analyzes.holds (hkeeps : (Event.run words).KeepsTo place ids s)
    (hv : invocation? s words = some v) (hi : Intact place s.files) (h : Analyzes s v id a) :
    Holds place (run s words).1.files id a := by
  rw [run_of_invocation hkeeps.1 hv, h.perform, ← h.schemaIdentifier]
  exact hi.holds_put (hkeeps.2 v hv).1 a

theorem Analyzes.known (hids : Set.InjOn Digest.md5 ids) (hi : Intact place s.files)
    (hkeeps : (Event.run words).KeepsTo place ids s) (hv : invocation? s words = some v)
    (h : Analyzes s v id a) {later : List Event} (hkeep : KeepTo place ids (run s words).1 later)
    (hretain : Retain id (run s words).1 later) :
    Known place (after (run s words).1 later) id a := by
  have hintact : Intact place (run s words).1.files := intact_apply hkeeps hi
  exact known_of_holds (intact_after hkeep hintact)
    (holds_after hids (h.mem_ids hkeeps hv) hkeep hretain hintact (h.holds hkeeps hv hi))

theorem Analyzes.reloaded_eq (hnow : s.now.Proper) (h : Analyzes s v id a) :
    (Json.Storable a.toValue → reloaded a = .ok a.finitePart) ∧
    (¬ Json.Storable a.toValue → reloaded a = answerOf (.refuse .jsonInvalid)) := by
  have hkeys : a.toValue.KeysDistinct := by
    cases h with
    | intro _ finds => exact Analysis.keysDistinct_ofDocument finds.read _ _ _
  have htime : a.metadata.analyzedAt.Proper := by
    cases h
    exact hnow
  exact Store.reloaded_eq hkeys htime

/-! ## A session in a work folder -/

/-- A session with a schema in the folder one works in. -/
def withSchema (text : String) : Session where
  files := ⟨[(["work"], .folder), (["work", "a.graphql"], .file (.text text))]⟩
  folder := ["work"]
  homes := ⟨⟨.root, ["home"]⟩, []⟩
  now := ⟨2024, 1, 1, 0, 0, 0, 0, some 0⟩

/-- A session in the work folder, in which no file stands in place of the cache. -/
structure AtWork (s : Session) : Prop where
  folder : s.folder = ["work"]
  root : s.files.Rooted ["work"]
  free : ∀ contents, s.files.node? nearby.place ≠ some (.file contents)

theorem stop_nearby {stop : Location}
    (h : stop ∈ stops (nearby.path.start nearby.origin) nearby.path.parts) :
    stop = ["work"] ∨ stop = nearby.place := by
  have hstops : stop ∈ [["work"], nearby.place] := h
  simpa using hstops

theorem AtWork.leadsTo (h : AtWork s) : nearby.LeadsTo nearby.place s.files where
  placed := wellPlaced_nearby
  place_eq := rfl
  start := h.root
  passable stop hstop contents := by
    rcases stop_nearby hstop with rfl | rfl
    · simp [h.root _ List.prefix_rfl]
    · exact h.free contents
  arrives hrooted stop hstop := by
    rcases stop_nearby hstop with rfl | rfl
    · exact h.root
    · exact hrooted

theorem AtWork.status?_eq (h : AtWork s) : s.status? "cache" = s.files.node? nearby.place := by
  have hparts : ("cache".toList.splitOn '/').map String.ofList = ["cache"] := by decide +kernel
  have hwalk : s.files.walk ["work"] ["cache"] = .ok nearby.place := by
    rw [walk, h.root _ List.prefix_rfl]
    rfl
  have hstatus : s.status? "cache" = ((s.files.walk ["work"] ["cache"]).bind
      s.files.nodeAt).toOption := by
    rw [Session.status?, h.folder, FileTree.status?, hparts]
    rfl
  rw [hstatus, hwalk]
  cases hnode : s.files.node? nearby.place <;> simp [Except.bind, nodeAt, hnode, Except.toOption]

theorem AtWork.isNoFile_status? (h : AtWork s) : isNoFile (s.status? "cache") = true := by
  rw [h.status?_eq]
  cases hnode : s.files.node? nearby.place with
  | none => rfl
  | some node =>
    cases node with
    | folder => rfl
    | file contents => exact absurd hnode (h.free contents)

theorem AtWork.invocation?_eq (h : AtWork s) {name : String} {behind : List String}
    {command : Command} {request : Request}
    (hwords : Words.read? sharedRules true words =
      some ⟨[("--cache-dir", "cache")], name :: behind⟩)
    (hcommand : Command.all.lookup name = some command)
    (hrequest : command.read? behind = some request) :
    invocation? s words = some ⟨.info, [], .default, nearby, request⟩ := by
  have hstore : (⟨FilePath.ofText "cache", ["work"]⟩ : Store) = nearby := by decide +kernel
  simp [invocation?, hwords, ownReport?, Shared.ofWords?, Words.value?, threshold?, fittingPath?,
    h.isNoFile_status?, commandOf?, hcommand, hrequest, loadSettings, Except.toOption, storeOf,
    h.folder, hstore, Option.filter, Command.helpRule, versionRule, flag]

theorem finds_withSchema {text : String} {document : Document}
    (hends : String.ofList (Text.unifyLineEnds text.toList) = text)
    (hvalid : (Document.read text).toOption.isSome = true)
    (hread : Document.read (text ++ "\n") = .ok document) :
    Finds (withSchema text) "a.graphql" (text ++ "\n") document where
  there := rfl
  source := by
    have hplace : (withSchema text).resolve "a.graphql" = ["work", "a.graphql"] := rfl
    have hfile : (withSchema text).files.read ["work", "a.graphql"] = .ok text := by
      rw [← congrArg Except.ok hends]
      rfl
    have hentries : Schema.entries (withSchema text).files ["work"]
        (.ofLocation ["work", "a.graphql"]) = [.ofLocation ["work", "a.graphql"]] := rfl
    -- the text has to be a document by itself, before a line end is put behind it
    have hentry : Schema.entryText (withSchema text).files ["work"]
        (.ofLocation ["work", "a.graphql"]) = .ok text := by
      have hload : Schema.entryText (withSchema text).files ["work"]
          (.ofLocation ["work", "a.graphql"]) =
            Schema.readFile (withSchema text).files (.ofLocation ["work", "a.graphql"])
              ["work", "a.graphql"] := rfl
      rw [hload, Schema.readFile, hfile]
      cases hdocument : Document.read text with
      | error fault => simp [hdocument, Except.toOption] at hvalid
      | ok document => simp only [hdocument]
    have hfolder : (withSchema text).folder = ["work"] := rfl
    rw [hplace, hfolder, Schema.source, hentries]
    simp [hentry, Schema.concatenated, List.mapM_cons, Except.map, bind, Except.bind, pure,
      Except.pure, String.join]
  read := hread

theorem finds_ofList {chars : List Char} {document : Document} (hreturn : '\x0d' ∉ chars)
    (hvalid : (Analysis.readChars chars).toOption.isSome = true)
    (hread : Analysis.readChars (chars ++ ['\n']) = .ok document) :
    Finds (withSchema (String.ofList chars)) "a.graphql" (String.ofList chars ++ "\n")
      document := by
  refine finds_withSchema ?_ ?_ ?_
  · rw [String.toList_ofList, Text.unifyLineEnds_eq_self hreturn]
  · rwa [Analysis.read_ofList]
  · have hline : String.ofList chars ++ "\n" = String.ofList (chars ++ ['\n']) := by
      rw [String.ofList_append]
    rwa [hline, Analysis.read_ofList]

theorem atWork_of_rooted (hfolder : s.folder = ["work"]) (h : s.files.Rooted nearby.place) :
    AtWork s where
  folder := hfolder
  root := h.of_prefix ⟨["cache"], rfl⟩
  free contents := by simp [h _ List.prefix_rfl]

theorem vacant_withSchema (text : String) : (withSchema text).files.Vacant nearby.place := by
  intro location h
  obtain ⟨rest, rfl⟩ := h
  rfl

theorem proper_withSchema (text : String) : (withSchema text).now.Proper :=
  (by decide : (⟨2024, 1, 1, 0, 0, 0, 0, some 0⟩ : Instant).Proper)

theorem atWork_withSchema (text : String) : AtWork (withSchema text) where
  folder := rfl
  root := (rooted_nil _).append rfl
  free contents := by simp [vacant_withSchema text _ List.prefix_rfl]

/-- The words that analyze the schema in the work folder. -/
def analyzeWords : List String :=
  ["--cache-dir", "cache", "analyze", "--subgraph", "s", "a.graphql"]

/-- The words that list its types, by another spelling of its path. -/
def typesWords : List String := ["--cache-dir", "cache", "types", "-s", "x/../a.graphql", "--json"]

/-- The words that analyze the schema, as they are understood. -/
def analyzing : Invocation := ⟨.info, [], .default, nearby, .analyze "a.graphql" false (some "s")⟩

/-- The words that list its types, as they are understood. -/
def listing : Invocation :=
  ⟨.info, [], .default, nearby, .types (some "x/../a.graphql") true⟩

theorem read?_analyzeWords : Words.read? sharedRules true analyzeWords =
    some ⟨[("--cache-dir", "cache")], ["analyze", "--subgraph", "s", "a.graphql"]⟩ := by
  decide +kernel

theorem read?_typesWords : Words.read? sharedRules true typesWords =
    some ⟨[("--cache-dir", "cache")], ["types", "-s", "x/../a.graphql", "--json"]⟩ := by
  decide +kernel

theorem opensLog_analyzeWords : opensLog analyzeWords = false := by
  rw [opensLog, read?_analyzeWords]
  decide

theorem opensLog_typesWords : opensLog typesWords = false := by
  rw [opensLog, read?_typesWords]
  decide

theorem invocation?_analyzeWords (h : AtWork s) : invocation? s analyzeWords = some analyzing :=
  h.invocation?_eq read?_analyzeWords rfl (by decide +kernel)

theorem invocation?_typesWords (h : AtWork s) : invocation? s typesWords = some listing :=
  h.invocation?_eq read?_typesWords rfl (by decide +kernel)

theorem AtWork.identifier_eq (h : AtWork s) :
    s.identifier "a.graphql" = "/work/a.graphql" ∧
      s.identifier "x/../a.graphql" = "/work/a.graphql" := by
  rw [Session.identifier, Session.identifier, Session.resolve, Session.resolve, h.folder]
  decide +kernel

theorem keepsTo_analyzeWords (h : AtWork s) :
    (Event.run analyzeWords).KeepsTo nearby.place {"/work/a.graphql"} s := by
  refine ⟨opensLog_analyzeWords, fun v hv => ?_⟩
  rw [invocation?_analyzeWords h] at hv
  cases hv
  refine ⟨h.leadsTo, fun schema force subgraph hrequest => ?_⟩
  cases hrequest
  exact h.identifier_eq.1

theorem keepsTo_typesWords (h : AtWork s) :
    (Event.run typesWords).KeepsTo nearby.place ids s := by
  refine ⟨opensLog_typesWords, fun v hv => ?_⟩
  rw [invocation?_typesWords h] at hv
  cases hv
  exact ⟨h.leadsTo, fun schema force subgraph hrequest => by cases hrequest⟩

theorem run_typesWords (s : Session) : (run s typesWords).1 = s := by
  have hname : commandName? typesWords = some "types" := by
    rw [commandName?, read?_typesWords]
    rfl
  exact run_of_asking opensLog_typesWords hname (by decide)

theorem analyzes_withSchema {text : String} {document : Document}
    (h : Finds (withSchema text) "a.graphql" (text ++ "\n") document) :
    Analyzes (withSchema text) analyzing "/work/a.graphql"
      (.ofDocument document "/work/a.graphql" "s" (withSchema text).now) := by
  have hnew : analyzing.store.has (withSchema text).files
      ((withSchema text).identifier "a.graphql") = false :=
    has_of_vacant (atWork_withSchema text).leadsTo (vacant_withSchema text) _
  have hlabel : chosenLabel (some "s") analyzing.settings.subgraph (text ++ "\n")
      "/work/a.graphql" = "s" := rfl
  have hmade := Analyzes.intro (rfl : analyzing.request = .analyze "a.graphql" false (some "s")) h
    (.inr hnew)
  rwa [(atWork_withSchema text).identifier_eq.1, hlabel] at hmade

theorem rooted_of_analyzes {text : String} (h : Analyzes (withSchema text) analyzing id a) :
    (run (withSchema text) analyzeWords).1.folder = ["work"] ∧
      (run (withSchema text) analyzeWords).1.files.Rooted nearby.place := by
  have hwork := atWork_withSchema text
  have hi := intact_of_vacant (vacant_withSchema text)
  have hkeeps := keepsTo_analyzeWords hwork
  have hv := invocation?_analyzeWords hwork
  constructor
  · rw [run_of_invocation hkeeps.1 hv, h.perform]
    rfl
  · exact Holds.rooted (intact_apply hkeeps hi) (h.holds hkeeps hv hi)

/-! ## Coherence -/

/-- After every history of runs on stores at a place that was vacant, the runs are coherent. -/
theorem coherent_after (hids : Set.InjOn Digest.md5 ids) (hvacant : s.files.Vacant place)
    {events : List Event} (hkeep : KeepTo place ids s events) :
    Coherent place ids (after s events) := by
  have hi : Intact place (after s events).files :=
    intact_after hkeep (intact_of_vacant hvacant)
  refine ⟨?asking, ?stored, ?unread, ?known, ?loaded⟩
  case asking =>
    intro words name hlog hname hasking
    exact run_of_asking hlog hname hasking
  case stored =>
    intro words v schema subgraph hlog hv hrequest hstored
    rw [run_of_invocation hlog hv, Invocation.perform, hrequest]
    exact analyze_of_stored hstored
  case unread =>
    intro words v schema force subgraph hlog hv hrequest hfinds
    rw [run_of_invocation hlog hv, Invocation.perform, hrequest]
    exact analyze_of_not_finds hfinds
  case known =>
    intro words v id a hkeeps hv hanalyzes later hlater hretain
    exact hanalyzes.known hids hi hkeeps hv hlater hretain
  case loaded =>
    intro v id a hnow hanalyzes
    exact hanalyzes.reloaded_eq hnow

/-- Asking before anything is stored changes nothing. The types that are analyzed then are told after
the schema has changed, by another spelling of its path. -/
theorem coherent_after_changed :
    let s₁ := (run (withSchema "type A \x7b a: Int \x7d") analyzeWords).1
    let s₂ := { s₁ with
      files := s₁.files.put ["work", "a.graphql"] (.file (.text "type B \x7b b: Int \x7d")) }
    run s₂ typesWords = (s₂, ⟨["[", "  \"A\"", "]"], .success⟩) := by
  intro s₁ s₂
  have hcheck : (Document.read ("type A \x7b a: Int \x7d" ++ "\n")).toOption.any (fun document =>
      let a := Analysis.ofDocument document "/work/a.graphql" "s" ⟨2024, 1, 1, 0, 0, 0, 0, some 0⟩
      decide (Json.Storable a.toValue ∧ listing.report (typesAnswer true a.finitePart) =
        ⟨["[", "  \"A\"", "]"], .success⟩)) = true := by decide +kernel
  obtain ⟨document, hread, hsound⟩ := Document.exists_of_any_toOption hcheck
  obtain ⟨hstorable, hreport⟩ := of_decide_eq_true hsound
  have hwork := atWork_withSchema "type A \x7b a: Int \x7d"
  have hmade := analyzes_withSchema
    (finds_withSchema (by decide +kernel) (by decide +kernel) hread)
  obtain ⟨hfolder, hrooted⟩ := rooted_of_analyzes hmade
  have hspares : Spares nearby.place s₁.files s₂.files :=
    spares_put (by decide) (by decide) _
  have hwork₂ : AtWork s₂ := atWork_of_rooted hfolder (hspares.way hrooted)
  have hasked : KeepTo nearby.place {"/work/a.graphql"} (withSchema "type A \x7b a: Int \x7d")
      [.run typesWords] := ⟨keepsTo_typesWords hwork, trivial⟩
  have hcoherent : Coherent nearby.place {"/work/a.graphql"}
      (withSchema "type A \x7b a: Int \x7d") :=
    run_typesWords (withSchema "type A \x7b a: Int \x7d") ▸
      coherent_after (Set.injOn_singleton Digest.md5 "/work/a.graphql") (vacant_withSchema _)
        hasked
  have hlater : KeepTo nearby.place {"/work/a.graphql"} s₁ [.outside s₂] := ⟨hspares, trivial⟩
  have hretain : Retain "/work/a.graphql" s₁ [.outside s₂] := ⟨not_false, trivial⟩
  have hknown : Known nearby.place s₂ "/work/a.graphql" _ :=
    hcoherent.known analyzeWords analyzing _ _ (keepsTo_analyzeWords hwork)
      (invocation?_analyzeWords hwork) hmade _ hlater hretain
  have htold := hknown.told typesWords listing "x/../a.graphql" (typesAnswer true)
    opensLog_typesWords (invocation?_typesWords hwork₂) hwork₂.leadsTo rfl hwork₂.identifier_eq.2
  rw [(hcoherent.loaded analyzing _ _ (proper_withSchema _) hmade).1 hstorable] at htold
  rw [← hreport]
  exact htold

/-- An analysis whose text is refused is stored, and asking about it fails. -/
theorem run_of_not_storable {text : String} {document : Document}
    (hfinds : Finds (withSchema text) "a.graphql" (text ++ "\n") document)
    (hdeep : ¬ Json.Storable (Analysis.ofDocument document "/work/a.graphql" "s"
      (withSchema text).now).toValue) :
    (Event.run analyzeWords).KeepsTo nearby.place {"/work/a.graphql"} (withSchema text) ∧
      (∃ v a, invocation? (withSchema text) analyzeWords = some v ∧
        Analyzes (withSchema text) v "/work/a.graphql" a) ∧
      ∃ problems, (run (run (withSchema text) analyzeWords).1 typesWords).2 =
        ⟨[], .failed (.store (.refused problems))⟩ := by
  have hwork := atWork_withSchema text
  have hi := intact_of_vacant (vacant_withSchema text)
  have hkeeps := keepsTo_analyzeWords hwork
  have hv := invocation?_analyzeWords hwork
  have hmade := analyzes_withSchema hfinds
  obtain ⟨hfolder, hrooted⟩ := rooted_of_analyzes hmade
  have hlater := atWork_of_rooted hfolder hrooted
  have hknown := known_of_holds (intact_apply hkeeps hi) (hmade.holds hkeeps hv hi)
  have htold := hknown.told typesWords listing "x/../a.graphql" (typesAnswer true)
    opensLog_typesWords (invocation?_typesWords hlater) hlater.leadsTo rfl hlater.identifier_eq.2
  have hnow : (withSchema text).now.Proper := proper_withSchema text
  rw [(hmade.reloaded_eq hnow).2 hdeep] at htold
  exact ⟨hkeeps, ⟨_, _, hv, hmade⟩, _, congrArg Prod.snd htold⟩

theorem run_of_nested :
    let chars := "type A @x(v: ".toList ++ List.replicate 196 '[' ++ List.replicate 196 ']' ++
      ") \x7b a: Int \x7d".toList
    let s := withSchema (String.ofList chars)
    s.files.Vacant nearby.place ∧
      (Event.run analyzeWords).KeepsTo nearby.place {"/work/a.graphql"} s ∧
      (∃ v a, invocation? s analyzeWords = some v ∧ Analyzes s v "/work/a.graphql" a) ∧
      ∃ problems, (run (run s analyzeWords).1 typesWords).2 =
        ⟨[], .failed (.store (.refused problems))⟩ := by
  intro chars s
  have hvalid : (Analysis.readChars chars).toOption.isSome = true := by decide +kernel
  have hcheck : (Analysis.readChars (chars ++ ['\n'])).toOption.any (fun document =>
      decide ¬ Json.Storable (Analysis.ofDocument document "/work/a.graphql" "s"
        ⟨2024, 1, 1, 0, 0, 0, 0, some 0⟩).toValue) = true := by decide +kernel
  obtain ⟨document, hread, hdeep⟩ := Document.exists_of_any_toOption hcheck
  exact ⟨vacant_withSchema _, run_of_not_storable (finds_ofList (by decide +kernel) hvalid hread)
    (of_decide_eq_true hdeep)⟩

end FederationGraph.CommandLine
