import ProgramAnalysis.Proofs.Graph.Removal

/-!
Graphs that edits make of the empty one. Edits that do not apply are passed over, and whatever is
made is coherent.
-/

namespace ProgramAnalysis.Graph

variable {graph built : Graph}

/-- A change that a graph can be asked for. -/
inductive Edit where
  | insertVertex (v : Nat) (label : String)
  | insertEdge (source target : Nat)
  | remove (v : Nat)

/-- The graph after an edit. -/
def edit (graph : Graph) : Edit → Except Fault Graph
  | .insertVertex v label => graph.insertVertex v label
  | .insertEdge source target => graph.insertEdge source target
  | .remove v => graph.remove v

/-- The graph after some edits of the empty one, of which those that fail change nothing. -/
def build (edits : List Edit) : Graph :=
  edits.foldl (fun graph edit => (graph.edit edit).toOption.getD graph) empty

theorem Coherent.edit (coherent : graph.Coherent) {edit : Edit}
    (done : graph.edit edit = .ok built) :
    built.Coherent := by
  cases edit with
  | insertVertex v label => exact coherent.insertVertex done
  | insertEdge source target => exact coherent.insertEdge done
  | remove v => exact coherent.remove done

theorem coherent_build (edits : List Edit) : (build edits).Coherent := by
  refine List.foldlRecOn edits _ coherent_empty fun graph coherent edit _ => ?_
  cases done : graph.edit edit with
  | error fault => exact coherent
  | ok built => exact coherent.edit done

end ProgramAnalysis.Graph
