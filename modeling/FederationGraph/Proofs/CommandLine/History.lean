import FederationGraph.Proofs.CommandLine.Run
import FederationGraph.Proofs.Store.Place

/-!
# Histories of runs

Command lines are run one after the other on stores at one place, which is vacant
in the beginning and changed by nothing else. In between, everything else may
change: the files of schemas, the folder one works in, the settings, the time.

Two facts go through every history. The place stays as stores leave it; and the
file of an analysis stays as it was written until the analysis is replaced by force
or the store is cleared. Every run that finds the file tells what it holds, however
the path of the schema is spelled.
-/
namespace FederationGraph.CommandLine

open FileTree Store

/-- What happens to a session: a command line is run, or something else takes place, after which the
session is the given one. -/
inductive Event where
  | run (words : List String)
  | outside (next : Session)

namespace Event

/-- The session after an event. -/
def apply (s : Session) : Event → Session
  | .run words => (CommandLine.run s words).1
  | .outside next => next

/-- An event keeps to a place and to identifiers: a run has no log file, its store leads to the
place, and what it analyzes has one of the identifiers; all else leaves the place alone. -/
def KeepsTo (place : Location) (ids : Set String) (s : Session) : Event → Prop
  | .run words => opensLog words = false ∧ ∀ v, invocation? s words = some v →
      v.store.LeadsTo place s.files ∧
        ∀ schema force subgraph, v.request = .analyze schema force subgraph →
          s.identifier schema ∈ ids
  | .outside next => Spares place s.files next.files

/-- An event that may replace the analysis of an identifier: an analysis by force, or a clearing. -/
def Replaces (id : String) (s : Session) : Event → Prop
  | .run words => ∃ v, invocation? s words = some v ∧ (v.request = .clear ∨
      ∃ schema subgraph, v.request = .analyze schema true subgraph ∧ s.identifier schema = id)
  | .outside _ => False

end Event

/-- The session after events. -/
def after (s : Session) (events : List Event) : Session := events.foldl Event.apply s

/-- Events that keep to a place and to identifiers, one after the other. -/
def KeepTo (place : Location) (ids : Set String) (s : Session) : List Event → Prop
  | [] => True
  | e :: rest => e.KeepsTo place ids s ∧ KeepTo place ids (e.apply s) rest

/-- Events none of which replaces the analysis of an identifier. -/
def Retain (id : String) (s : Session) : List Event → Prop
  | [] => True
  | e :: rest => ¬ e.Replaces id s ∧ Retain id (e.apply s) rest

variable {place : Location} {ids : Set String} {s : Session} {e : Event} {events : List Event}
  {words : List String} {v : Invocation} {id : String} {a : Analysis}

/-! ## What an event preserves -/

theorem intact_perform (hs : v.store.LeadsTo place s.files) (h : Intact place s.files) :
    Intact place (v.perform s).1.files := by
  rcases v.perform_cases s with hsame | ⟨other, made, -, hput⟩ | ⟨-, hclear⟩
  · rwa [hsame]
  · rw [hput]
    exact h.put hs made
  · rw [hclear]
    exact h.clear hs

theorem intact_apply (hkeeps : e.KeepsTo place ids s) (h : Intact place s.files) :
    Intact place (e.apply s).files := by
  cases e with
  | outside next => exact h.of_spares hkeeps
  | run words =>
    obtain ⟨hlog, hleads⟩ := hkeeps
    rcases run_cases (s := s) hlog with ⟨v, hv, hrun⟩ | ⟨-, hsame⟩
    · rw [Event.apply, hrun]
      exact intact_perform (hleads v hv).1 h
    · rwa [Event.apply, hsame]

/-- An analysis that is held is not made again unless that is forced. -/
theorem Analyzes.forced (hs : v.store.LeadsTo place s.files) (hi : Intact place s.files)
    (h : Holds place s.files id a) {made : Analysis} (hmade : Analyzes s v id made) :
    ∃ schema subgraph, v.request = .analyze schema true subgraph ∧ s.identifier schema = id := by
  cases hmade with
  | @intro schema force subgraph text document hrequest hfinds hanew =>
    rcases hanew with rfl | hnew
    · exact ⟨schema, subgraph, hrequest, rfl⟩
    · rw [h.has hs hi] at hnew
      cases hnew

theorem holds_apply (hids : Set.InjOn Digest.md5 ids) (hid : id ∈ ids)
    (hkeeps : e.KeepsTo place ids s) (hretains : ¬ e.Replaces id s) (hi : Intact place s.files)
    (h : Holds place s.files id a) : Holds place (e.apply s).files id a := by
  cases e with
  | outside next => exact h.of_spares hkeeps
  | run words =>
    obtain ⟨hlog, hleads⟩ := hkeeps
    rcases run_cases (s := s) hlog with ⟨v, hv, hrun⟩ | ⟨-, hsame⟩
    · obtain ⟨hs, hknown⟩ := hleads v hv
      rw [Event.apply, hrun]
      rcases v.perform_cases s with hsame | ⟨other, made, hmade, hput⟩ | ⟨hclear, -⟩
      · rwa [hsame]
      · rw [hput]
        refine h.put hs hi fun hname => ?_
        have hother : other ∈ ids := by
          cases hmade with
          | intro hrequest => exact hknown _ _ _ hrequest
        -- the file would be the one of this very identifier
        rw [hmade.schemaIdentifier, fileName_inj hids hid hother] at hname
        subst hname
        exact hretains ⟨v, hv, .inr (hmade.forced hs hi h)⟩
      · exact absurd ⟨v, hv, .inl hclear⟩ hretains
    · rwa [Event.apply, hsame]

/-! ## What a history preserves -/

theorem intact_after (hkeep : KeepTo place ids s events) (h : Intact place s.files) :
    Intact place (after s events).files := by
  induction events generalizing s with
  | nil => exact h
  | cons e rest ih => exact ih hkeep.2 (intact_apply hkeep.1 h)

theorem holds_after (hids : Set.InjOn Digest.md5 ids) (hid : id ∈ ids)
    (hkeep : KeepTo place ids s events) (hretain : Retain id s events) (hi : Intact place s.files)
    (h : Holds place s.files id a) : Holds place (after s events).files id a := by
  induction events generalizing s with
  | nil => exact h
  | cons e rest ih =>
    exact ih hkeep.2 hretain.2 (intact_apply hkeep.1 hi)
      (holds_apply hids hid hkeep.1 hretain.1 hi h)

/-! ## What a run tells of an analysis that is held -/

/-- The outcome of an answer from what a store gives. -/
def answered (loaded : Except StoreFault Analysis) (answer : Analysis → Outcome) : Outcome :=
  match loaded with
  | .ok analysis => answer analysis
  | .error fault => .failed (.store fault)

theorem identifier_ne_empty (s : Session) (schema : String) : s.identifier schema ≠ "" := by
  simp [Session.identifier, Location.text, FilePath.ofLocation, FilePath.text, Anchor.text]

theorem fromStored_of_holds {store : Store} (hs : store.LeadsTo place s.files)
    (hi : Intact place s.files) {schema : String} (h : Holds place s.files (s.identifier schema) a)
    (answer : Analysis → Outcome) :
    fromStored s store (some schema) answer = answered (reloaded a) answer := by
  have hresolve : store.resolve s.files ((some schema).map s.identifier) = reloaded a := by
    rw [← h.get hs hi]
    simp [Store.resolve, Registry.nonEmpty?, Option.filter, identifier_ne_empty]
  rw [fromStored, hresolve]
  rfl

/-- The analysis of an identifier is the given one: its file holds it, analyzing it without force
changes nothing, and inquiries about it are answered from what it is loaded as. -/
structure Known (place : Location) (s : Session) (id : String) (a : Analysis) : Prop where
  held : Holds place s.files id a
  again : ∀ words v schema subgraph, opensLog words = false → invocation? s words = some v →
    v.store.LeadsTo place s.files → v.request = .analyze schema false subgraph →
      s.identifier schema = id → (run s words).1 = s
  told : ∀ words v schema answer, opensLog words = false → invocation? s words = some v →
    v.store.LeadsTo place s.files → v.request.inquiry? = some (some schema, answer) →
      s.identifier schema = id → run s words = (s, v.report (answered (reloaded a) answer))

theorem known_of_holds (hi : Intact place s.files) (h : Holds place s.files id a) :
    Known place s id a where
  held := h
  again words v schema subgraph hlog hv hs hrequest hid := by
    rw [run_of_invocation hlog hv, Invocation.perform, hrequest]
    exact analyze_of_stored (hid ▸ h.has hs hi)
  told words v schema answer hlog hv hs hinquiry hid := by
    subst hid
    rw [run_of_invocation hlog hv, Invocation.perform, perform_of_inquiry hinquiry,
      fromStored_of_holds hs hi h]

end FederationGraph.CommandLine
