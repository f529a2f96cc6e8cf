import FederationGraph.Files.Tree
import Mathlib.Data.List.Basic

/-!
# Walks through a file tree

What stands at a location after a change depends on the changed locations alone.
A walk arrives where its parts lead if every folder on the way is there, and it
can arrive nowhere else. Making folders along a path lets the walk arrive and
changes nothing but what was missing on the way.
-/
namespace FederationGraph.FileTree

/-! ## Nodes after a change -/

theorem lookup_filter {α β : Type} [BEq α] [LawfulBEq α] (p : α → Bool) (entries : List (α × β))
    (key : α) : (entries.filter fun entry => p entry.1).lookup key =
      if p key then entries.lookup key else none := by
  induction entries with
  | nil => simp
  | cons entry entries ih =>
    obtain ⟨k, value⟩ := entry
    by_cases hp : p k = true
    · rw [List.filter_cons_of_pos (by simpa using hp), List.lookup_cons, List.lookup_cons, ih]
      by_cases hk : key = k
      · subst hk
        simp [hp]
      · simp [beq_false_of_ne hk]
    · rw [List.filter_cons_of_neg (by simpa using hp), List.lookup_cons, ih]
      by_cases hk : key = k
      · subst hk
        simp [hp]
      · simp [beq_false_of_ne hk]

theorem node?_put (t : FileTree) {location : Location} (h : location ≠ []) (node : Node)
    (other : Location) :
    (t.put location node).node? other = if other = location then some node else t.node? other := by
  by_cases hnil : other = []
  · rw [hnil, if_neg (Ne.symm h)]
    rfl
  · have hempty : other.isEmpty = false := by simpa using hnil
    simp only [node?, put, hempty, List.lookup_append, lookup_filter (fun l => l != location)]
    by_cases ho : other = location
    · simp [ho]
    · simp [ho, List.lookup_cons, beq_false_of_ne ho]

theorem node?_remove (t : FileTree) (location other : Location) :
    (t.remove location).node? other =
      if other ≠ [] ∧ location <+: other then none else t.node? other := by
  by_cases hnil : other = []
  · rw [hnil, if_neg (by simp)]
    rfl
  · have hempty : other.isEmpty = false := by simpa using hnil
    simp only [node?, remove, hempty, lookup_filter (fun l => !location.isPrefixOf l)]
    by_cases hp : location <+: other
    · have hb : location.isPrefixOf other = true := List.isPrefixOf_iff_prefix.mpr hp
      simp [hnil, hp, hb]
    · have hb : location.isPrefixOf other = false := by
        rwa [← Bool.not_eq_true, List.isPrefixOf_iff_prefix]
      simp [hp, hb]

/-! ## Folders all the way from the root -/

/-- Whether a location is a folder, and all locations on the way to it from the root are. -/
def Rooted (t : FileTree) (location : Location) : Prop :=
  ∀ front, front <+: location → t.node? front = some .folder

theorem rooted_nil (t : FileTree) : t.Rooted [] := by
  intro front h
  rw [List.prefix_nil.mp h]
  rfl

theorem Rooted.of_prefix {t : FileTree} {location front : Location} (h : t.Rooted location)
    (hp : front <+: location) : t.Rooted front :=
  fun _ hf => h _ (hf.trans hp)

theorem Rooted.append {t : FileTree} {location : Location} (h : t.Rooted location) {name : String}
    (hn : t.node? (location ++ [name]) = some .folder) : t.Rooted (location ++ [name]) := by
  intro front hf
  rcases List.prefix_concat_iff.mp hf with rfl | hf
  · exact hn
  · exact h front hf

/-- Folders stay where a change touches only what was missing. -/
theorem Rooted.of_changed {t changed : FileTree} {location : Location} (h : t.Rooted location)
    (hc : ∀ l, changed.node? l = t.node? l ∨ t.node? l = none) : changed.Rooted location := by
  intro front hf
  rcases hc front with hs | hn
  · rw [hs, h front hf]
  · exact absurd (h front hf) (by simp [hn])

/-! ## Stops on the way -/

/-- The locations that a walk comes through, from the first to the last. -/
def stops (here : Location) : List String → List Location
  | [] => [here]
  | part :: rest => here :: stops (step here part) rest

theorem here_mem_stops (here : Location) (parts : List String) : here ∈ stops here parts := by
  cases parts <;> simp [stops]

theorem foldl_step_mem_stops (here : Location) (parts : List String) :
    parts.foldl step here ∈ stops here parts := by
  induction parts generalizing here with
  | nil => exact List.mem_singleton.mpr rfl
  | cons part rest ih => exact List.mem_cons_of_mem _ (ih _)

theorem stops_append (here : Location) (parts more : List String) :
    ∀ stop ∈ stops here parts, stop ∈ stops here (parts ++ more) := by
  induction parts generalizing here with
  | nil =>
    intro stop hs
    rw [List.mem_singleton.mp hs]
    exact here_mem_stops _ _
  | cons part rest ih =>
    intro stop hs
    rcases List.mem_cons.mp hs with rfl | hs
    · exact List.mem_cons_self
    · exact List.mem_cons_of_mem _ (ih _ stop hs)

theorem step_parent (here : Location) : step here parentPart = here.dropLast := if_pos rfl

theorem step_part {part : String} (hp : FilePath.isPart part = true) (hn : part ≠ parentPart)
    (here : Location) : step here part = here ++ [part] := by
  rw [step, if_neg hn, if_pos hp]

/-- Where a path leads is where a walk along its parts leads. -/
theorem resolve_eq {p : FilePath} (hp : ∀ part ∈ p.parts, FilePath.isPart part = true)
    (folder : Location) : p.resolve folder = p.parts.foldl step (p.start folder) := by
  rw [FilePath.resolve]
  generalize p.start folder = here
  generalize p.parts = parts at hp
  induction parts generalizing here with
  | nil => rfl
  | cons part rest ih =>
    rw [List.foldl_cons, List.foldl_cons, ih _ fun q hq => hp q (List.mem_cons_of_mem _ hq), step,
      if_pos (hp part List.mem_cons_self)]

/-! ## Walks -/

theorem walk_append (t : FileTree) (here : Location) (parts more : List String) :
    t.walk here (parts ++ more) = (t.walk here parts).bind fun l => t.walk l more := by
  induction parts generalizing here with
  | nil => rfl
  | cons part rest ih =>
    rw [List.cons_append, walk, walk]
    cases t.node? here with
    | none => rfl
    | some node =>
      cases node with
      | folder => exact ih _
      | file => rfl

/-- A walk arrives nowhere but where its parts lead. -/
theorem eq_foldl_step_of_walk {t : FileTree} {here l : Location} {parts : List String}
    (h : t.walk here parts = .ok l) : l = parts.foldl step here := by
  induction parts generalizing here with
  | nil =>
    cases h
    rfl
  | cons part rest ih =>
    rw [walk] at h
    split at h
    · cases h
    · cases h
    · exact ih h

theorem walk_of_rooted {t : FileTree} {here : Location} {parts : List String}
    (h : ∀ stop ∈ stops here parts, t.Rooted stop) :
    t.walk here parts = .ok (parts.foldl step here) := by
  induction parts generalizing here with
  | nil => rfl
  | cons part rest ih =>
    rw [walk, h here List.mem_cons_self here List.prefix_rfl]
    exact ih fun stop hs => h stop (List.mem_cons_of_mem _ hs)

/-- A name that leads one folder further. -/
def IsName (name : String) : Prop := FilePath.isPart name = true ∧ name ≠ parentPart

instance (name : String) : Decidable (IsName name) :=
  inferInstanceAs (Decidable (_ ∧ _))

/-- Names only. -/
def Plain (names : List String) : Prop := ∀ name ∈ names, IsName name

instance (names : List String) : Decidable (Plain names) :=
  inferInstanceAs (Decidable (∀ name ∈ names, IsName name))

theorem walk_plain {t : FileTree} {here : Location} {names : List String}
    (h : ∀ front, front <+: here ++ names → front ≠ here ++ names → t.node? front = some .folder)
    (hp : Plain names) : t.walk here names = .ok (here ++ names) := by
  induction names generalizing here with
  | nil => rw [walk, List.append_nil]
  | cons name rest ih =>
    obtain ⟨hpart, hparent⟩ := hp name List.mem_cons_self
    have hassoc : here ++ [name] ++ rest = here ++ name :: rest := by simp
    have hhere : t.node? here = some .folder := h here (List.prefix_append _ _) (by simp)
    rw [walk, hhere]
    simp only [step_part hpart hparent]
    rw [ih (by rwa [hassoc]) fun q hq => hp q (List.mem_cons_of_mem _ hq), hassoc]

theorem plain_foldl_step {here : Location} {parts : List String} (hh : Plain here)
    (hp : ∀ part ∈ parts, FilePath.isPart part = true) : Plain (parts.foldl step here) := by
  induction parts generalizing here with
  | nil => exact hh
  | cons part rest ih =>
    refine ih ?_ fun q hq => hp q (List.mem_cons_of_mem _ hq)
    rw [step]
    split
    · exact fun name hn => hh name (List.dropLast_subset here hn)
    · rename_i hparent
      have hpart := hp part List.mem_cons_self
      rw [if_pos hpart]
      intro name hn
      rcases List.mem_append.mp hn with hn | hn
      · exact hh name hn
      · rw [List.mem_singleton.mp hn]
        exact ⟨hpart, hparent⟩

/-! ## Making folders -/

/-- The first folder on a way is there, or it is made. -/
theorem exists_makeFolders_cons {t : FileTree} {here : Location} {part : String}
    (hroot : t.Rooted here) (hpart : FilePath.isPart part = true)
    (hfile : ∀ contents, t.node? (step here part) ≠ some (.file contents)) :
    ∃ next : FileTree, next.Rooted (step here part) ∧
      (∀ l, next.node? l = t.node? l ∨ (l = step here part ∧ t.node? l = none)) ∧
      ∀ rest, t.makeFolders here (part :: rest) = next.makeFolders (step here part) rest := by
  by_cases hparent : part = parentPart
  · rw [hparent, step_parent]
    refine ⟨t, hroot.of_prefix (List.dropLast_prefix here), fun _ => .inl rfl, fun rest => ?_⟩
    rw [makeFolders, if_pos rfl]
  · rw [step_part hpart hparent] at hfile ⊢
    cases hnode : t.node? (here ++ [part]) with
    | none =>
      have hput := t.node?_put (by simp : here ++ [part] ≠ []) .folder
      have hchanged : ∀ l, (t.put (here ++ [part]) .folder).node? l = t.node? l ∨
          (l = here ++ [part] ∧ t.node? l = none) := by
        intro l
        rw [hput]
        split
        · rename_i hl
          exact .inr ⟨hl, hl ▸ hnode⟩
        · exact .inl rfl
      refine ⟨t.put (here ++ [part]) .folder, ?_, hchanged, fun rest => ?_⟩
      · refine (hroot.of_changed fun l => (hchanged l).imp_right And.right).append ?_
        rw [hput, if_pos rfl]
      · rw [makeFolders, if_neg hparent]
        simp only [hnode]
    | some node =>
      cases node with
      | folder =>
        refine ⟨t, hroot.append hnode, fun _ => .inl rfl, fun rest => ?_⟩
        rw [makeFolders, if_neg hparent]
        simp only [hnode]
      | file contents => exact absurd hnode (hfile contents)

/-- Folders can be made along parts where no file stands in the way. Every stop is a folder then,
and nothing has changed but at stops where nothing was. -/
theorem exists_makeFolders {t : FileTree} {here : Location} {parts : List String}
    (hroot : t.Rooted here) (hparts : ∀ part ∈ parts, FilePath.isPart part = true)
    (hfile : ∀ stop ∈ stops here parts, ∀ contents, t.node? stop ≠ some (.file contents)) :
    ∃ made, t.makeFolders here parts = .ok made ∧
      (∀ stop ∈ stops here parts, made.Rooted stop) ∧
      ∀ l, made.node? l = t.node? l ∨ (l ∈ stops here parts ∧ t.node? l = none) := by
  induction parts generalizing t here with
  | nil =>
    refine ⟨t, rfl, fun stop hs => ?_, fun _ => .inl rfl⟩
    rwa [List.mem_singleton.mp hs]
  | cons part rest ih =>
    have hnextStop : step here part ∈ stops here (part :: rest) :=
      List.mem_cons_of_mem _ (here_mem_stops _ _)
    obtain ⟨next, hnextRoot, hchange, heq⟩ :=
      exists_makeFolders_cons hroot (hparts part List.mem_cons_self) (hfile _ hnextStop)
    have hnextFile : ∀ stop ∈ stops (step here part) rest, ∀ contents,
        next.node? stop ≠ some (.file contents) := by
      intro stop hs contents
      rcases hchange stop with hsame | ⟨rfl, -⟩
      · rw [hsame]
        exact hfile stop (List.mem_cons_of_mem _ hs) contents
      · simp [hnextRoot _ List.prefix_rfl]
    obtain ⟨made, hmade, hfolders, hsame⟩ :=
      ih hnextRoot (fun q hq => hparts q (List.mem_cons_of_mem _ hq)) hnextFile
    have hall : ∀ l, made.node? l = t.node? l ∨
        (l ∈ stops here (part :: rest) ∧ t.node? l = none) := by
      intro l
      rcases hchange l with hn | ⟨rfl, hnone⟩
      · rw [← hn]
        exact (hsame l).imp_right fun ⟨hl, hnone⟩ => ⟨List.mem_cons_of_mem _ hl, hnone⟩
      · exact .inr ⟨hnextStop, hnone⟩
    refine ⟨made, (heq rest).trans hmade, fun stop hs => ?_, hall⟩
    rcases List.mem_cons.mp hs with rfl | hs
    · exact hroot.of_changed fun l => (hall l).imp_right And.right
    · exact hfolders stop hs

end FederationGraph.FileTree
