import FederationGraph.Dependency.Record
import Mathlib.Data.List.Forall2

/-!
# Two spellings of federation directives

A key, a requirement, a provision and an external field can each be written with
a directive of their own or as the only argument of a joining directive. The two
spellings are read into different federation directives, and a text that is
missing or empty is dropped at different places. What a registry and its edges
take from them is the same: the paths of the keys, whether a field is external,
and the field sets that are not empty.
-/
namespace FederationGraph

/-- The arguments of joining directives that say something about federation. -/
def Directive.joiningArguments : List String := ["graph", "key", "requires", "provides", "external"]

/-- `d.JoinsBy name argument value`: a joining directive that carries one of the joining arguments
and none of the others. `value` is `none` where that one is left out as well. -/
structure Directive.JoinsBy (d : Directive) (name argument : String) (value : Option Value) :
    Prop where
  name : d.name = name
  arguments : ∀ other ∈ joiningArguments,
    d.arguments.get? other = if other = argument then value else none

/-- A directive with a single argument joins by it. -/
theorem Directive.joinsBy_single (name argument : String) (value : Value) :
    JoinsBy ⟨name, .ofList [(argument, value)]⟩ name argument (some value) where
  name := rfl
  arguments other _ := OrderedMap.get?_insert .empty argument other value

theorem Directive.joinsBy_empty (name argument : String) :
    JoinsBy ⟨name, .empty⟩ name argument none where
  name := rfl
  arguments _ _ := (ite_self none).symm

/-- `d.Respelled e`: `e` is `d`, or writes with a joining directive and without a graph what `d`
writes with a directive of its own. -/
inductive Directive.Respelled : Directive → Directive → Prop
  | same (d : Directive) : Respelled d d
  | key {d e : Directive} (name : d.name = "key")
      (joins : e.JoinsBy "join__type" "key" (d.arguments.get? "fields")) : Respelled d e
  | requires {d e : Directive} (name : d.name = "requires")
      (joins : e.JoinsBy "join__field" "requires" (d.arguments.get? "fields")) : Respelled d e
  | provides {d e : Directive} (name : d.name = "provides")
      (joins : e.JoinsBy "join__field" "provides" (d.arguments.get? "fields")) : Respelled d e
  | external {d e : Directive} (name : d.name = "external")
      (joins : e.JoinsBy "join__field" "external" (some (.boolean true))) : Respelled d e

namespace FederationDirective

/-- The uses of field sets that are not empty; the others give no edges. -/
def effectiveUses (ambient : String) (ds : List FederationDirective) :
    List Registry.FieldSetUse :=
  (ds.flatMap (Registry.fieldSetUses ambient)).filter fun use => use.fieldSet ≠ ""

/-- Federation directives of which a registry and its edges take the same. -/
structure SameEffect (ds es : List FederationDirective) : Prop where
  keyPaths : keyPaths ds = keyPaths es
  external : ds.any isExternal = es.any isExternal
  uses : ∀ ambient, effectiveUses ambient ds = effectiveUses ambient es

theorem SameEffect.refl (ds : List FederationDirective) : SameEffect ds ds :=
  ⟨rfl, rfl, fun _ => rfl⟩

theorem SameEffect.append {ds es ds' es' : List FederationDirective} (h : SameEffect ds es)
    (h' : SameEffect ds' es') : SameEffect (ds ++ ds') (es ++ es') where
  keyPaths := by
    have hd := h.keyPaths
    have hd' := h'.keyPaths
    simp only [FederationDirective.keyPaths, List.filterMap_append, List.flatMap_append] at hd hd' ⊢
    rw [hd, hd']
  external := by rw [List.any_append, List.any_append, h.external, h'.external]
  uses ambient := by
    have hd := h.uses ambient
    have hd' := h'.uses ambient
    simp only [effectiveUses, List.flatMap_append, List.filter_append] at hd hd' ⊢
    rw [hd, hd']

end FederationDirective

namespace Directive

open FederationDirective

theorem JoinsBy.federation?_joinType {d : Directive} {argument : String} {value : Option Value}
    (h : d.JoinsBy "join__type" argument value) :
    d.federation? = some (.joinType
      ((if "graph" = argument then value else none).bind Value.text?)
      ((if "key" = argument then value else none).bind Value.text?)) := by
  rw [← h.arguments "graph" (by decide), ← h.arguments "key" (by decide)]
  simp [federation?, textArgument?, h.name]

theorem JoinsBy.federation?_joinField {d : Directive} {argument : String} {value : Option Value}
    (h : d.JoinsBy "join__field" argument value) :
    d.federation? = some (.joinField
      ((if "graph" = argument then value else none).bind Value.text?)
      ((if "requires" = argument then value else none).bind Value.text?)
      ((if "provides" = argument then value else none).bind Value.text?)
      ((if "external" = argument then value else none).any Value.isTrue)) := by
  rw [← h.arguments "graph" (by decide), ← h.arguments "requires" (by decide),
    ← h.arguments "provides" (by decide), ← h.arguments "external" (by decide)]
  simp [federation?, textArgument?, h.name]

/-- Either spelling of a directive has the same effect, also where its text is left out, empty or no
text at all. -/
theorem Respelled.sameEffect {d e : Directive} (h : d.Respelled e) :
    SameEffect d.federation?.toList e.federation?.toList := by
  cases h with
  | same => exact .refl _
  | key name joins =>
    have hd : d.federation? = (d.textArgument? "fields").map .key := by simp [federation?, name]
    have he : e.federation? = some (.joinType none (d.textArgument? "fields")) :=
      joins.federation?_joinType
    rw [hd, he]
    cases d.textArgument? "fields" with
    | none => exact ⟨rfl, rfl, fun _ => rfl⟩
    | some fields => exact ⟨rfl, rfl, fun _ => rfl⟩
  | requires name joins =>
    have hd : d.federation? = (d.textArgument? "fields").map .requires := by
      simp [federation?, name]
    have he : e.federation? = some (.joinField none (d.textArgument? "fields") none false) :=
      joins.federation?_joinField
    rw [hd, he]
    cases d.textArgument? "fields" with
    | none => exact ⟨rfl, rfl, fun _ => rfl⟩
    | some fields =>
      refine ⟨rfl, rfl, fun ambient => ?_⟩
      -- the joining directive drops an empty text at once, the other one gives it no effect
      by_cases hf : fields = "" <;>
        simp [effectiveUses, Registry.fieldSetUses, Registry.nonEmpty?, Option.filter, hf]
  | provides name joins =>
    have hd : d.federation? = (d.textArgument? "fields").map .provides := by
      simp [federation?, name]
    have he : e.federation? = some (.joinField none none (d.textArgument? "fields") false) :=
      joins.federation?_joinField
    rw [hd, he]
    cases d.textArgument? "fields" with
    | none => exact ⟨rfl, rfl, fun _ => rfl⟩
    | some fields =>
      refine ⟨rfl, rfl, fun ambient => ?_⟩
      by_cases hf : fields = "" <;>
        simp [effectiveUses, Registry.fieldSetUses, Registry.nonEmpty?, Option.filter, hf]
  | external name joins =>
    have hd : d.federation? = some .external := by simp [federation?, name]
    have he : e.federation? = some (.joinField none none none true) := joins.federation?_joinField
    rw [hd, he]
    exact ⟨rfl, rfl, fun _ => rfl⟩

theorem sameEffect_of_respelled {ds es : List Directive} (h : List.Forall₂ Respelled ds es) :
    SameEffect (ofDirectives ds) (ofDirectives es) := by
  have hcons : ∀ (d : Directive) (ds : List Directive),
      ofDirectives (d :: ds) = d.federation?.toList ++ ofDirectives ds := by
    intro d ds
    rw [ofDirectives, List.filterMap_cons]
    cases d.federation? <;> rfl
  induction h with
  | nil => exact .refl _
  | cons hde hrest ih =>
    rw [hcons, hcons]
    exact hde.sameEffect.append ih

end Directive

end FederationGraph
