import FederationGraph.Analysis.Format
import FederationGraph.Proofs.Document.Names
import FederationGraph.Proofs.Value

/-!
# Values in a document

Objects are read with the entries that repeat a key merged, and so are the
arguments of a directive. No object in the arguments of a directive that was read
repeats a key.
-/
namespace FederationGraph

/-- Whether no object in the arguments of a fragment's directives repeats a key. -/
structure TypeFragment.KeysDistinct (f : TypeFragment) : Prop where
  directives : ∀ d ∈ f.directives, d.toValue.KeysDistinct
  fields : ∀ field ∈ f.fields, ∀ d ∈ field.directives, d.toValue.KeysDistinct

theorem Directive.keysDistinct_toValue {d : Directive} :
    d.toValue.KeysDistinct ↔ ∀ entry ∈ d.arguments.entries, entry.2.KeysDistinct := by
  have hkeys : (d.arguments.entries.map Prod.fst).Nodup := d.arguments.distinct
  simp [Directive.toValue, Value.keysDistinct_object, hkeys]

namespace Document

namespace Reader

variable {N : String → Prop}

theorem reads_simpleValue (constant : Bool) :
    Reads N (simpleValue constant) Value.KeysDistinct := by
  have taken : ∀ value : Value, value.KeysDistinct →
      Reads N (advance >>= fun _ => pure value : Reader Value) Value.KeysDistinct :=
    fun _ hvalue => .then passes_advance fun _ => .pure hvalue
  refine .then passes_front fun token => ?_
  split
  · refine taken _ ?_
    rw [integerValue]
    split <;> simp
  · exact taken _ (by simp)
  · exact taken _ (by simp)
  · exact taken _ (by simp)
  · refine taken _ ?_
    rw [namedValue]
    split_ifs <;> simp
  · exact .ite reads_variableInConstant (.then passes_variableName fun _ => .pure (by simp))
  · exact reads_unexpected

theorem reads_entry {value : Reader Value} (h : Reads N value Value.KeysDistinct) :
    Reads N (entry value) fun entry => entry.2.KeysDistinct :=
  .then passes_name fun _ => .then (passes_expect .colon) fun _ => .bind h fun _ hvalue =>
    .pure hvalue

theorem reads_value (constant : Bool) (depth : Nat) :
    Reads N (value constant depth) Value.KeysDistinct := by
  induction depth with
  | zero =>
    rw [value_zero]
    refine .then passes_front fun token => ?_
    split
    · exact reads_failAt
    · exact reads_failAt
    · exact reads_simpleValue constant
  | succ depth ih =>
    rw [value_succ]
    refine .then passes_front fun token => ?_
    split
    · exact .bind (reads_bracketed ih) fun _ hitems => .pure (Value.keysDistinct_list.mpr hitems)
    · exact .bind (reads_bracketed (reads_entry ih)) fun _ hentries =>
        .pure (Value.keysDistinct_ofEntries hentries)
    · exact reads_simpleValue constant

theorem reads_directive (constant : Bool) (depth : Nat) :
    Reads N (directive constant depth) fun d => d.toValue.KeysDistinct := by
  refine .then (passes_expect .at) fun _ => .then passes_name fun _ => ?_
  refine .bind (reads_optional (reads_entry (reads_value constant depth))) ?_
  intro entries hentries
  exact .pure (Directive.keysDistinct_toValue.mpr fun entry he =>
    hentries entry (OrderedMap.mem_of_mem_ofList he))

theorem reads_someDirectives (constant : Bool) (depth fuel : Nat) :
    Reads N (someDirectives constant depth fuel) fun ds => ∀ d ∈ ds, d.toValue.KeysDistinct := by
  induction fuel with
  | zero => exact reads_unexpected
  | succ fuel ih =>
    refine .then (passes_sees .at) fun _ => .ite ?_ (.pure (by simp))
    refine .bind (reads_directive constant depth) fun first hfirst => .bind ih fun rest hrest => ?_
    exact .pure (List.forall_mem_cons.mpr ⟨hfirst, hrest⟩)

theorem reads_directives : Reads N directives fun ds => ∀ d ∈ ds, d.toValue.KeysDistinct :=
  .then reads_get.passes fun _ => reads_someDirectives true depthLimit _

theorem reads_fieldDirectives :
    Reads N fieldDefinition fun field => ∀ d ∈ field.directives, d.toValue.KeysDistinct := by
  refine .then passes_description fun _ => .then passes_name fun _ => ?_
  refine .then passes_argumentDefinitions fun _ => .then (passes_expect .colon) fun _ => ?_
  exact .then (reads_type depthLimit).passes fun _ => .bind reads_directives fun _ hd => .pure hd

theorem reads_fragmentValues (isInterface isExtension : Bool) :
    Reads N (typeFragment isInterface isExtension) TypeFragment.KeysDistinct := by
  refine .then passes_name fun _ => .then reads_interfaces.passes fun _ => ?_
  refine .bind reads_directives fun ds hds => ?_
  exact .bind (reads_optional reads_fieldDirectives) fun fields hfields => .pure ⟨hds, hfields⟩

end Reader

/-- No object in the arguments of a document's directives repeats a key. -/
theorem keysDistinct_of_read {source : String} {document : Document}
    (h : read source = .ok document) : ∀ f ∈ document.fragments, f.KeysDistinct :=
  satisfies_of_read Reader.reads_fragmentValues h

end Document

end FederationGraph
