import FederationGraph.Proofs.FieldSet.Scope

/-!
# Containers come first

Whatever its braces look like, a field set selects a name that encloses others
ahead of them. The invariant of the reading is that the names whose braces are
open, and the name right in front, were selected one below the other: each way
to go down some of them, from the outermost, is the path of an earlier selection.
-/
namespace FederationGraph.FieldSet

/-- Every way to go down some of `names` from the outermost is the path of an occurrence seen. -/
def Descends (seen : List Occurrence) (names : List String) : Prop :=
  ∀ stem, stem <+: names → stem ≠ [] → ∃ o ∈ seen, o.names = stem

theorem Descends.nil (seen : List Occurrence) : Descends seen [] := by
  intro stem hs hne
  exact absurd (List.prefix_nil.mp hs) hne

theorem Descends.of_prefix {seen : List Occurrence} {names above : List String}
    (h : Descends seen names) (ha : above <+: names) : Descends seen above :=
  fun stem hs hne => h stem (hs.trans ha) hne

theorem Descends.append {seen : List Occurrence} {names : List String} (h : Descends seen names)
    (more : List Occurrence) : Descends (seen ++ more) names := by
  intro stem hs hne
  obtain ⟨o, ho, hn⟩ := h stem hs hne
  exact ⟨o, List.mem_append_left more ho, hn⟩

/-- A name that has just been seen below those that enclose it. -/
theorem Descends.snoc {seen : List Occurrence} {o : Occurrence} (h : Descends seen o.enclosing) :
    Descends (seen ++ [o]) o.names := by
  intro stem hs hne
  rcases List.prefix_concat_iff.mp hs with rfl | hs
  · exact ⟨o, List.mem_append_right seen (List.mem_singleton_self o), rfl⟩
  · exact h.append [o] stem hs hne

theorem reverse_openNames_tail (scopes : List (Option String)) :
    (openNames scopes.tail).reverse <+: (openNames scopes).reverse := by
  cases scopes with
  | nil => exact List.prefix_rfl
  | cons scope scopes =>
    rw [List.tail_cons, reverse_openNames_cons]
    exact List.prefix_append _ _

/-- What encloses a name was seen ahead of it. -/
theorem descends_enclosing {scopes : List (Option String)} {before : Option String}
    {tokens : List Token} {seen earlier later : List Occurrence} {o : Occurrence}
    (hseen : Descends seen ((openNames scopes).reverse ++ before.toList))
    (h : occurrencesFrom scopes before tokens = earlier ++ o :: later) :
    Descends (seen ++ earlier) o.enclosing := by
  have hopen : Descends seen (openNames scopes).reverse := hseen.of_prefix (List.prefix_append _ _)
  -- braces change what is open and see nothing new; a name is seen below what is open
  induction tokens generalizing scopes before seen earlier with
  | nil => exact absurd h (by simp [occurrencesFrom])
  | cons token rest ih =>
    cases token with
    | opening =>
      rw [← reverse_openNames_cons] at hseen
      have hnone : Descends seen ((openNames (before :: scopes)).reverse ++ none.toList) := by
        rwa [Option.toList_none, List.append_nil]
      exact ih hnone h hseen
    | closing =>
      have htail : Descends seen (openNames scopes.tail).reverse :=
        hopen.of_prefix (reverse_openNames_tail scopes)
      have hnone : Descends seen ((openNames scopes.tail).reverse ++ none.toList) := by
        rwa [Option.toList_none, List.append_nil]
      exact ih hnone h htail
    | name text =>
      rw [occurrencesFrom] at h
      cases earlier with
      | nil =>
        obtain ⟨rfl, -⟩ := List.cons.inj h
        exact hopen.append []
      | cons first earlier =>
        obtain ⟨rfl, hrest⟩ := List.cons.inj h
        have hname : Descends (seen ++ [⟨(openNames scopes).reverse, text⟩])
            ((openNames scopes).reverse ++ (some text).toList) := Descends.snoc hopen
        rw [List.append_cons]
        exact ih hname hrest (hopen.append _)

/-- Every shorter way down to a name of a field set is the path of a name in front of it. -/
theorem exists_earlier_occurrence {tokens : List Token} {earlier later : List Occurrence}
    {o : Occurrence} (h : occurrencesFrom [] none tokens = earlier ++ o :: later)
    {stem : List String} (hs : stem <+: o.names) (hne : stem ≠ []) (hshorter : stem ≠ o.names) :
    ∃ p ∈ earlier, p.names = stem := by
  have hnil : Descends [] ((openNames []).reverse ++ none.toList) := Descends.nil []
  have hd : Descends ([] ++ earlier) o.enclosing := descends_enclosing hnil h
  rcases List.prefix_concat_iff.mp hs with he | hs
  · exact absurd he hshorter
  · exact hd stem hs hne

/-- The path to a name goes through names of the field set. -/
theorem mem_tokens_of_mem_names {scopes : List (Option String)} {before : Option String}
    {tokens : List Token} {o : Occurrence} (ho : o ∈ occurrencesFrom scopes before tokens)
    {name : String} (hn : name ∈ o.names) :
    .name name ∈ tokens ∨ name ∈ (openNames scopes).reverse ++ before.toList := by
  induction tokens generalizing scopes before with
  | nil => cases ho
  | cons token rest ih =>
    cases token with
    | opening =>
      rcases ih ho with h | h
      · exact .inl (List.mem_cons_of_mem _ h)
      · rw [reverse_openNames_cons, Option.toList_none, List.append_nil] at h
        exact .inr h
    | closing =>
      rcases ih ho with h | h
      · exact .inl (List.mem_cons_of_mem _ h)
      · rw [Option.toList_none, List.append_nil] at h
        exact .inr (List.mem_append_left _ ((reverse_openNames_tail scopes).subset h))
    | name text =>
      rcases List.mem_cons.mp ho with rfl | ho
      · rcases List.mem_append.mp hn with hn | hn
        · exact .inr (List.mem_append_left _ hn)
        · obtain rfl := List.mem_singleton.mp hn
          exact .inl List.mem_cons_self
      · rcases ih ho with h | h
        · exact .inl (List.mem_cons_of_mem _ h)
        · rcases List.mem_append.mp h with h | h
          · exact .inr (List.mem_append_left _ h)
          · obtain rfl := List.mem_singleton.mp h
            exact .inl List.mem_cons_self

/-- The names on the way to a selected name hold no dots if no name of the field set does. -/
theorem segments_ofNames_of_mem {tokens : List Token} {o : Occurrence}
    (dotFree : ∀ name, .name name ∈ tokens → '.' ∉ name.toList)
    (ho : o ∈ occurrencesFrom [] none tokens) {stem : List String} (hs : stem <+: o.names)
    (hne : stem ≠ []) : Path.segments (Path.ofNames stem) = stem := by
  refine Path.segments_ofNames hne fun name hn => dotFree name ?_
  rcases mem_tokens_of_mem_names ho (hs.subset hn) with ht | ht
  · exact ht
  · cases ht

end FederationGraph.FieldSet
