import FederationGraph.Dependency.Leaf
import FederationGraph.Proofs.Dependency.Identity
import Mathlib.Data.List.Induction
import Mathlib.Data.List.Nodup

/-!
# What a reduction keeps

For each identity the reduction chooses one dependency. None of that identity has
a longer path, and which one is chosen depends on those of the identity and on
their order alone. The chosen ones have distinct identities, so that a reduction
holds no dependency twice, and it holds a chosen one if no other chosen one
continues it. Rearranging the dependencies without touching the order of those
with one identity therefore rearranges the reduction at most.
-/
namespace FederationGraph.Dependency

/-- The better one of what was found so far and a further dependency. -/
def better (found : Option Dependency) (d : Dependency) : Option Dependency :=
  if improves found d then some d else found

theorem le_better (found : Option Dependency) (d : Dependency) :
    ∃ e, better found d = some e ∧ d.fieldPath.length ≤ e.fieldPath.length ∧
      ∀ f, found = some f → f.fieldPath.length ≤ e.fieldPath.length := by
  cases found with
  | none => exact ⟨d, rfl, Nat.le_refl _, by simp⟩
  | some f =>
    by_cases h : f.fieldPath.length < d.fieldPath.length
    · refine ⟨d, by simp [better, improves, h], Nat.le_refl _, ?_⟩
      rintro _ ⟨⟩
      exact Nat.le_of_lt h
    · refine ⟨f, by simp [better, improves, h], Nat.le_of_not_lt h, ?_⟩
      rintro _ ⟨⟩
      exact Nat.le_refl _

/-- The first one with the longest path among the dependencies of an identity. -/
def firstLongest (ds : List Dependency) (i : Identity) : Option Dependency :=
  (ds.filter fun d => d.identity = i).foldl better none

theorem firstLongest_concat (ds : List Dependency) (d : Dependency) (i : Identity) :
    firstLongest (ds ++ [d]) i =
      if d.identity = i then better (firstLongest ds i) d else firstLongest ds i := by
  rw [firstLongest, List.filter_append]
  by_cases h : d.identity = i
  · rw [List.filter_cons_of_pos (by simpa using h), List.filter_nil, List.foldl_append, if_pos h]
    rfl
  · rw [List.filter_cons_of_neg (by simpa using h), List.filter_nil, List.append_nil, if_neg h]
    rfl

theorem le_firstLongest {ds : List Dependency} {d : Dependency} (h : d ∈ ds) :
    ∃ e, firstLongest ds d.identity = some e ∧
      d.fieldPath.length ≤ e.fieldPath.length := by
  induction ds using List.reverseRecOn with
  | nil => cases h
  | append_singleton ds new ih =>
    rw [firstLongest_concat]
    rcases List.mem_append.mp h with h | h
    · obtain ⟨found, hfound, hle⟩ := ih h
      split
      · obtain ⟨e, he, -, hlonger⟩ := le_better (firstLongest ds d.identity) new
        exact ⟨e, he, Nat.le_trans hle (hlonger found hfound)⟩
      · exact ⟨found, hfound, hle⟩
    · obtain rfl := List.mem_singleton.mp h
      obtain ⟨e, he, hle, -⟩ := le_better (firstLongest ds d.identity) d
      exact ⟨e, by rw [if_pos rfl, he], hle⟩

theorem longest_concat (ds : List Dependency) (d : Dependency) :
    longest (ds ++ [d]) = choose (longest ds) (ds.length, d) := by
  rw [longest, List.zipIdx_append, List.map_append, List.foldl_append, longest]
  simp

/-- What is chosen so far for an identity. -/
def chosenFor (chosen : List (Nat × Dependency)) (i : Identity) : Option Dependency :=
  (chosen.find? fun entry => entry.2.identity = i).map Prod.snd

theorem choose_eq (chosen : List (Nat × Dependency)) (new : Nat × Dependency) :
    choose chosen new =
      if improves (chosenFor chosen new.2.identity) new.2 then
        chosen.filter (fun old => old.2.identity ≠ new.2.identity) ++ [new]
      else chosen :=
  rfl

theorem chosenFor_choose (chosen : List (Nat × Dependency)) (new : Nat × Dependency)
    (i : Identity) :
    chosenFor (choose chosen new) i =
      if new.2.identity = i then better (chosenFor chosen i) new.2 else chosenFor chosen i := by
  rw [choose_eq]
  by_cases h : new.2.identity = i
  · subst h
    rw [if_pos rfl, better]
    split
    · -- what was chosen for the identity is gone, so the new one behind it is found
      have hnone : (chosen.filter fun old => old.2.identity ≠ new.2.identity).find?
          (fun entry => entry.2.identity = new.2.identity) = none := by
        rw [List.find?_eq_none]
        intro entry he
        simpa using (List.mem_filter.mp he).2
      rw [chosenFor, List.find?_append, hnone]
      simp
    · rfl
  · rw [if_neg h]
    split
    · have hsame : (chosen.filter fun old => old.2.identity ≠ new.2.identity).find?
          (fun entry => entry.2.identity = i) = chosen.find? fun entry => entry.2.identity = i := by
        rw [List.find?_filter]
        congr 1
        funext entry
        by_cases he : entry.2.identity = i
        · simp [he, Ne.symm h]
        · simp [he]
      rw [chosenFor, List.find?_append, hsame, List.find?_cons_of_neg (by simpa using h),
        List.find?_nil, Option.or_none, chosenFor]
    · rfl

theorem chosenFor_longest (ds : List Dependency) (i : Identity) :
    chosenFor (longest ds) i = firstLongest ds i := by
  induction ds using List.reverseRecOn with
  | nil => rfl
  | append_singleton ds d ih => rw [longest_concat, chosenFor_choose, firstLongest_concat, ih]

theorem identity_of_firstLongest {ds : List Dependency} {i : Identity} {d : Dependency}
    (h : firstLongest ds i = some d) : d.identity = i := by
  rw [← chosenFor_longest, chosenFor, Option.map_eq_some_iff] at h
  obtain ⟨entry, hfind, rfl⟩ := h
  simpa using List.find?_some hfind

theorem mem_choose {chosen : List (Nat × Dependency)} {new entry : Nat × Dependency}
    (h : entry ∈ choose chosen new) :
    entry = new ∧ improves (chosenFor chosen new.2.identity) new.2 = true ∨ entry ∈ chosen := by
  rw [choose_eq] at h
  split at h
  · rename_i hi
    rcases List.mem_append.mp h with h | h
    · exact .inr (List.mem_filter.mp h).1
    · exact .inl ⟨List.mem_singleton.mp h, hi⟩
  · exact .inr h

theorem getElem?_of_mem_longest {ds : List Dependency} {entry : Nat × Dependency}
    (h : entry ∈ longest ds) : ds[entry.1]? = some entry.2 := by
  induction ds using List.reverseRecOn with
  | nil => cases h
  | append_singleton ds d ih =>
    rw [longest_concat] at h
    rcases mem_choose h with ⟨rfl, -⟩ | h
    · exact List.getElem?_concat_length
    · have hd := ih h
      rw [List.getElem?_append_left (List.getElem?_eq_some_iff.mp hd).1, hd]

/-- What is chosen beats all of its identity that stand in front of it. -/
theorem improves_of_mem_longest {ds : List Dependency} {n : Nat} {d : Dependency}
    (h : (n, d) ∈ longest ds) :
    improves (firstLongest (ds.take n) d.identity) d = true := by
  induction ds using List.reverseRecOn with
  | nil => cases h
  | append_singleton ds new ih =>
    rw [longest_concat] at h
    rcases mem_choose h with ⟨heq, hbeats⟩ | h
    · obtain ⟨rfl, rfl⟩ := Prod.mk.inj heq
      rw [List.take_left, ← chosenFor_longest]
      exact hbeats
    · have hn : n < ds.length := (List.getElem?_eq_some_iff.mp (getElem?_of_mem_longest h)).1
      rw [List.take_append_of_le_length (Nat.le_of_lt hn)]
      exact ih h

theorem pairwise_choose {chosen : List (Nat × Dependency)} {new : Nat × Dependency}
    (h : chosen.Pairwise fun a b => a.2.identity ≠ b.2.identity) :
    (choose chosen new).Pairwise fun a b => a.2.identity ≠ b.2.identity := by
  rw [choose_eq]
  split
  · refine List.pairwise_append.mpr ⟨h.filter _, List.pairwise_singleton _ _, ?_⟩
    intro a ha b hb
    obtain rfl := List.mem_singleton.mp hb
    simpa using (List.mem_filter.mp ha).2
  · exact h

theorem pairwise_longest (ds : List Dependency) :
    (longest ds).Pairwise fun a b => a.2.identity ≠ b.2.identity := by
  induction ds using List.reverseRecOn with
  | nil => exact .nil
  | append_singleton ds d ih =>
    rw [longest_concat]
    exact pairwise_choose ih

theorem eq_of_mem_longest {ds : List Dependency} {a b : Nat × Dependency} (ha : a ∈ longest ds)
    (hb : b ∈ longest ds) (h : a.2.identity = b.2.identity) : a = b := by
  have hnodup : ((longest ds).map fun entry => entry.2.identity).Nodup := by
    rw [List.nodup_iff_pairwise_ne, List.pairwise_map]
    exact pairwise_longest ds
  exact List.inj_on_of_nodup_map hnodup ha hb h

/-- The chosen dependencies are the first longest of their identities. -/
theorem exists_mem_longest {ds : List Dependency} {d : Dependency} :
    (∃ n, (n, d) ∈ longest ds) ↔ firstLongest ds d.identity = some d := by
  rw [← chosenFor_longest, chosenFor, Option.map_eq_some_iff]
  constructor
  · rintro ⟨n, hn⟩
    refine ⟨(n, d), ?_, rfl⟩
    cases hf : (longest ds).find? fun entry => entry.2.identity = d.identity with
    | none => simpa using List.find?_eq_none.mp hf (n, d) hn
    | some entry =>
      have hi : entry.2.identity = d.identity := by simpa using List.find?_some hf
      rw [eq_of_mem_longest (List.mem_of_find?_eq_some hf) hn hi]
  · rintro ⟨⟨n, e⟩, hf, rfl⟩
    exact ⟨n, List.mem_of_find?_eq_some hf⟩

theorem isContinued_longest {ds : List Dependency} {d : Dependency} :
    isContinued (longest ds) d = true ↔
      ∃ e, firstLongest ds e.identity = some e ∧ e.group = d.group ∧
        Path.continues d.fieldPath e.fieldPath = true := by
  simp only [isContinued, List.any_eq_true, Bool.and_eq_true, decide_eq_true_eq,
    ← exists_mem_longest]
  constructor
  · rintro ⟨⟨n, e⟩, hn, h⟩
    exact ⟨e, ⟨n, hn⟩, h⟩
  · rintro ⟨e, ⟨n, hn⟩, h⟩
    exact ⟨(n, e), hn, h⟩

theorem mem_keptPositions {ds : List Dependency} {n : Nat} :
    n ∈ keptPositions ds ↔ ∃ d, (n, d) ∈ longest ds ∧ isContinued (longest ds) d = false := by
  simp only [keptPositions, List.mem_filter, List.mem_range, List.contains_iff_mem, List.mem_map,
    Bool.not_eq_eq_eq_not, Bool.not_true]
  constructor
  · rintro ⟨-, ⟨m, d⟩, ⟨hn, hc⟩, rfl⟩
    exact ⟨d, hn, hc⟩
  · rintro ⟨d, hn, hc⟩
    exact ⟨(List.getElem?_eq_some_iff.mp (getElem?_of_mem_longest hn)).1, (n, d), ⟨hn, hc⟩, rfl⟩

/-- A reduction holds the chosen dependencies that no chosen one continues. -/
theorem mem_reduce {ds : List Dependency} {d : Dependency} :
    d ∈ reduce ds ↔ firstLongest ds d.identity = some d ∧ isContinued (longest ds) d = false := by
  rw [reduce, List.mem_filterMap, ← exists_mem_longest]
  constructor
  · rintro ⟨n, hn, hd⟩
    obtain ⟨e, he, hc⟩ := mem_keptPositions.mp hn
    obtain rfl : d = e := Option.some.inj (hd.symm.trans (getElem?_of_mem_longest he))
    exact ⟨⟨n, he⟩, hc⟩
  · rintro ⟨⟨n, hn⟩, hc⟩
    exact ⟨n, mem_keptPositions.mpr ⟨d, hn, hc⟩, getElem?_of_mem_longest hn⟩

theorem pairwise_reduce (ds : List Dependency) :
    (reduce ds).Pairwise fun d e => d.identity ≠ e.identity := by
  have hpositions : (keptPositions ds).Nodup := List.nodup_range.filter _
  rw [reduce, List.pairwise_filterMap]
  refine hpositions.imp_of_mem ?_
  intro m n hm hn hne d hd e he h
  obtain ⟨d', hmd, -⟩ := mem_keptPositions.mp hm
  obtain ⟨e', hne', -⟩ := mem_keptPositions.mp hn
  obtain rfl : d = d' := Option.some.inj (hd.symm.trans (getElem?_of_mem_longest hmd))
  obtain rfl : e = e' := Option.some.inj (he.symm.trans (getElem?_of_mem_longest hne'))
  exact hne (congrArg Prod.fst (eq_of_mem_longest hmd hne' h))

theorem nodup_reduce (ds : List Dependency) : (reduce ds).Nodup :=
  (pairwise_reduce ds).imp fun h e => h (congrArg identity e)

/-- A reduction does not depend on how dependencies of distinct identities are mixed. -/
theorem reduce_perm {ds es : List Dependency} (h : SameByIdentity ds es) :
    (reduce ds).Perm (reduce es) := by
  have hf : firstLongest ds = firstLongest es := by
    funext i
    rw [firstLongest, firstLongest, h]
  have hc : ∀ d, isContinued (longest ds) d = isContinued (longest es) d := by
    intro d
    rw [Bool.eq_iff_iff, isContinued_longest, isContinued_longest, hf]
  -- neither list holds anything twice, so that it is enough to compare their members
  rw [List.perm_ext_iff_of_nodup (nodup_reduce ds) (nodup_reduce es)]
  intro d
  rw [mem_reduce, mem_reduce, hf, hc]

end FederationGraph.Dependency
