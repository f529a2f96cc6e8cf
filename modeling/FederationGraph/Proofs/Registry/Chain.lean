import FederationGraph.Registry.Resolution

/-!
# Chains of owners

A path resolves to the owners at which a chain along its segments can end. Each
link goes from a type to an owner of the segment selected on it, and on to the
named type of the segment on that owner. The walk merges the branches that meet
in a type; no end is lost by that, and no end is listed twice.
-/
namespace FederationGraph.Registry

/-- `r.Owns type field owner`: a field selected on a type belongs to `owner`. On an object type
that is the type itself, on an interface each implementation that defines the field, and the
interface itself only if no implementation does. -/
inductive Owns (r : Registry) (typeName field : String) : String → Prop
  | itself {type : SchemaType} (known : r.types.get? typeName = some type)
      (object : type.isInterface = false) (defines : r.hasField typeName field = true) :
      Owns r typeName field typeName
  | implementation {type : SchemaType} {owner : String}
      (known : r.types.get? typeName = some type) (interface : type.isInterface = true)
      (listed : owner ∈ r.implementationsOf typeName) (defines : r.hasField owner field = true) :
      Owns r typeName field owner
  | interface {type : SchemaType} (known : r.types.get? typeName = some type)
      (interface : type.isInterface = true)
      (undefined : ∀ owner ∈ r.implementationsOf typeName, r.hasField owner field = false)
      (defines : r.hasField typeName field = true) : Owns r typeName field typeName

/-- `r.Chain start segments owner`: a chain of owners along the segments starts at the type `start`
and ends at `owner`. -/
inductive Chain (r : Registry) : String → List String → String → Prop
  | last {start segment owner : String} (owns : r.Owns start segment owner) :
      Chain r start [segment] owner
  | link {start segment owner next last : String} {rest : List String}
      (owns : r.Owns start segment owner) (leads : r.fieldType? owner segment = some next)
      (chain : Chain r next rest last) : Chain r start (segment :: rest) last

theorem hasField_eq (r : Registry) {typeName field : String} {type : SchemaType}
    (h : r.types.get? typeName = some type) :
    r.hasField typeName field = type.fields.contains field := by
  rw [hasField, h, Option.any_some]

theorem exists_fieldType {r : Registry} {typeName field : String}
    (h : r.hasField typeName field = true) : ∃ next, r.fieldType? typeName field = some next := by
  obtain ⟨type, ht, hf⟩ := (Option.any_eq_true _ _).mp h
  obtain ⟨found, hf⟩ := Option.isSome_iff_exists.mp hf
  exact ⟨found.namedType, by rw [fieldType?, ht, Option.bind_some, hf, Option.map_some]⟩

theorem Owns.hasField {r : Registry} {typeName field owner : String}
    (h : r.Owns typeName field owner) : r.hasField owner field = true := by
  cases h <;> assumption

theorem mem_definingImplementations {r : Registry} {interface field owner : String} :
    owner ∈ r.definingImplementations interface field ↔
      owner ∈ r.implementationsOf interface ∧ r.hasField owner field = true :=
  List.mem_filter

theorem definingImplementations_eq_nil {r : Registry} {interface field : String} :
    r.definingImplementations interface field = [] ↔
      ∀ owner ∈ r.implementationsOf interface, r.hasField owner field = false := by
  simp [definingImplementations]

theorem owners_object {r : Registry} {typeName : String} (field : String) {type : SchemaType}
    (ht : r.types.get? typeName = some type) (hi : type.isInterface = false) :
    r.owners typeName field = if r.hasField typeName field = true then [typeName] else [] := by
  rw [r.hasField_eq ht]
  simp only [owners, ht, hi]
  rfl

theorem owners_interface {r : Registry} {typeName : String} (field : String) {type : SchemaType}
    (ht : r.types.get? typeName = some type) (hi : type.isInterface = true) :
    r.owners typeName field =
      if r.definingImplementations typeName field = [] then
        if r.hasField typeName field = true then [typeName] else []
      else r.definingImplementations typeName field := by
  rw [r.hasField_eq ht]
  simp only [owners, ht, hi, if_true, List.isEmpty_iff]

theorem mem_owners {r : Registry} {typeName field owner : String} :
    owner ∈ r.owners typeName field ↔ r.Owns typeName field owner := by
  cases ht : r.types.get? typeName with
  | none =>
    rw [owners, ht]
    refine ⟨nofun, fun h => ?_⟩
    cases h <;> simp_all
  | some type =>
    cases hi : type.isInterface with
    | false =>
      rw [owners_object field ht hi, List.mem_ite_nil_right, List.mem_singleton]
      constructor
      · rintro ⟨hd, rfl⟩
        exact .itself ht hi hd
      · intro h
        cases h with
        | itself known object defines => exact ⟨defines, rfl⟩
        | implementation known interface => simp_all
        | interface known interface => simp_all
    | true =>
      rw [owners_interface field ht hi]
      by_cases hn : r.definingImplementations typeName field = []
      · rw [if_pos hn, List.mem_ite_nil_right, List.mem_singleton]
        have hu := definingImplementations_eq_nil.mp hn
        constructor
        · rintro ⟨hd, rfl⟩
          exact .interface ht hi hu hd
        · intro h
          cases h with
          | itself known object => simp_all
          | implementation known interface listed defines =>
            rw [hu owner listed] at defines
            cases defines
          | interface known interface undefined defines => exact ⟨defines, rfl⟩
      · rw [if_neg hn, mem_definingImplementations]
        constructor
        · rintro ⟨hl, hd⟩
          exact .implementation ht hi hl hd
        · intro h
          cases h with
          | itself known object => simp_all
          | implementation known interface listed defines => exact ⟨listed, defines⟩
          | interface known interface undefined =>
            exact absurd (definingImplementations_eq_nil.mpr undefined) hn

/-- What a field selected on a type resolves to: each of its owners, with the field's type there. -/
theorem mem_resolveField {r : Registry} {field typeName : String} {x : Resolution} :
    x ∈ r.resolveField field typeName ↔
      r.Owns typeName field x.owner ∧ x.field = field ∧
        r.fieldType? x.owner field = some x.fieldType := by
  simp only [resolveField, List.mem_filterMap, mem_owners, Option.map_eq_some_iff]
  constructor
  · rintro ⟨owner, ho, next, hn, rfl⟩
    exact ⟨ho, rfl, hn⟩
  · rintro ⟨ho, rfl, hn⟩
    exact ⟨x.owner, ho, x.fieldType, hn, rfl⟩

theorem mem_follow {r : Registry} {cursors : List String} {field next : String} :
    next ∈ r.follow cursors field ↔
      ∃ cursor ∈ cursors, ∃ owner, r.Owns cursor field owner ∧
        r.fieldType? owner field = some next := by
  simp only [follow, mem_distinct, List.mem_flatMap, List.mem_map, mem_resolveField]
  constructor
  · rintro ⟨cursor, hc, x, ⟨ho, -, hn⟩, rfl⟩
    exact ⟨cursor, hc, x.owner, ho, hn⟩
  · rintro ⟨cursor, hc, owner, ho, hn⟩
    exact ⟨cursor, hc, ⟨owner, field, next⟩, ⟨ho, rfl, hn⟩, rfl⟩

/-- The walk ends exactly where a chain from one of its cursors ends. -/
theorem mem_walk {r : Registry} {cursors segments : List String} {x : Resolution} :
    x ∈ r.walk cursors segments ↔
      (∃ cursor ∈ cursors, r.Chain cursor segments x.owner) ∧ segments.getLast? = some x.field ∧
        r.fieldType? x.owner x.field = some x.fieldType := by
  fun_induction walk r cursors segments with
  | case1 => simp
  | case2 cursors last =>
    simp only [mem_distinct, List.mem_flatMap, mem_resolveField, List.getLast?_singleton,
      Option.some.injEq]
    constructor
    · rintro ⟨cursor, hc, ho, rfl, hn⟩
      exact ⟨⟨cursor, hc, .last ho⟩, rfl, hn⟩
    · rintro ⟨⟨cursor, hc, h⟩, rfl, hn⟩
      cases h with
      | last ho => exact ⟨cursor, hc, ho, rfl, hn⟩
      | link ho hl h => cases h
  | case3 cursors segment rest hne ih =>
    -- the induction starts from all types that the first segment leads to
    have hr : rest ≠ [] := fun h => hne h
    have hl : (segment :: rest).getLast? = rest.getLast? := by
      cases rest with
      | nil => exact absurd rfl hr
      | cons _ _ => exact List.getLast?_cons_cons
    rw [ih, hl]
    refine and_congr_left fun _ => ?_
    constructor
    · rintro ⟨next, hf, h⟩
      obtain ⟨cursor, hc, owner, ho, hn⟩ := mem_follow.mp hf
      exact ⟨cursor, hc, .link ho hn h⟩
    · rintro ⟨cursor, hc, h⟩
      cases h with
      | last ho => exact absurd rfl hr
      | link ho hn h => exact ⟨_, mem_follow.mpr ⟨cursor, hc, _, ho, hn⟩, h⟩

theorem nodup_walk (r : Registry) (cursors segments : List String) :
    (r.walk cursors segments).Nodup := by
  fun_induction walk r cursors segments with
  | case1 => exact .nil
  | case2 => exact nodup_distinct _
  | case3 _ _ _ _ ih => exact ih

theorem Chain.hasField {r : Registry} {start last : String} {segments : List String}
    (h : r.Chain start segments last) :
    ∃ segment, segments.getLast? = some segment ∧ r.hasField last segment = true := by
  induction h with
  | last owns => exact ⟨_, rfl, owns.hasField⟩
  | link owns leads chain ih =>
    obtain ⟨segment, hs, hf⟩ := ih
    exact ⟨segment, by rw [List.getLast?_cons, hs, Option.getD_some], hf⟩

/-- A chain passes an owner of the last segment on every shorter way down its segments. -/
theorem Chain.exists_of_prefix {r : Registry} {start last : String} {segments stem : List String}
    (h : r.Chain start segments last) (hs : stem <+: segments) (hne : stem ≠ []) :
    ∃ owner, r.Chain start stem owner := by
  induction h generalizing stem with
  | last owns =>
    obtain ⟨first, stem, rfl⟩ := List.exists_cons_of_ne_nil hne
    obtain ⟨rfl, hrest⟩ := List.cons_prefix_cons.mp hs
    obtain rfl := List.prefix_nil.mp hrest
    exact ⟨_, .last owns⟩
  | link owns leads chain ih =>
    obtain ⟨first, stem, rfl⟩ := List.exists_cons_of_ne_nil hne
    obtain ⟨rfl, hrest⟩ := List.cons_prefix_cons.mp hs
    by_cases hstem : stem = []
    · subst hstem
      exact ⟨_, .last owns⟩
    · obtain ⟨owner, hc⟩ := ih hrest hstem
      exact ⟨owner, .link owns leads hc⟩

theorem mem_map_owner_walk {r : Registry} {cursors segments : List String} {owner : String} :
    owner ∈ (r.walk cursors segments).map Resolution.owner ↔
      ∃ cursor ∈ cursors, r.Chain cursor segments owner := by
  constructor
  · intro h
    obtain ⟨x, hx, rfl⟩ := List.mem_map.mp h
    exact (mem_walk.mp hx).1
  · rintro ⟨cursor, hc, h⟩
    obtain ⟨segment, hs, hf⟩ := h.hasField
    obtain ⟨next, hn⟩ := exists_fieldType hf
    exact List.mem_map.mpr ⟨⟨owner, segment, next⟩, mem_walk.mpr ⟨⟨cursor, hc, h⟩, hs, hn⟩, rfl⟩

/-- A resolution is determined by its owner, so no owner is listed twice. -/
theorem nodup_map_owner_walk (r : Registry) (cursors segments : List String) :
    ((r.walk cursors segments).map Resolution.owner).Nodup := by
  rw [List.nodup_iff_pairwise_ne, List.pairwise_map]
  refine (nodup_walk r cursors segments).imp_of_mem ?_
  intro x y hx hy hne he
  obtain ⟨-, hfx, htx⟩ := mem_walk.mp hx
  obtain ⟨-, hfy, hty⟩ := mem_walk.mp hy
  have hf : x.field = y.field := Option.some.inj (hfx.symm.trans hfy)
  rw [he, hf, hty] at htx
  have ht : y.fieldType = x.fieldType := Option.some.inj htx
  apply hne
  cases x; cases y
  simp_all

end FederationGraph.Registry
