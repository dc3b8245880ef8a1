import ProgramAnalysis.Fault
import ProgramAnalysis.Reachability
import ProgramAnalysis.SortedSet
import ProgramAnalysis.Table

/-!
Labelled directed graphs over numbered vertices, as the dependencies between tasks are.
-/

namespace ProgramAnalysis

/-- Labelled vertices, and every edge at both its ends: where it leads and where it comes from. The
three tables are about the same vertices. -/
structure Graph where
  labels : Table Nat String
  outgoing : Table Nat (SortedSet Nat)
  incoming : Table Nat (SortedSet Nat)
  keys_outgoing : outgoing.keys = labels.keys
  keys_incoming : incoming.keys = labels.keys

namespace Graph

def empty : Graph := ⟨.empty, .empty, .empty, rfl, rfl⟩

instance : Inhabited Graph := ⟨empty⟩

def size (graph : Graph) : Nat := graph.labels.entries.length

def hasVertex (graph : Graph) (v : Nat) : Bool := graph.labels.contains v

/-- What a table lists for a vertex, which must be there. -/
def endsOf (edges : Table Nat (SortedSet Nat)) (v : Nat) : Except Fault (SortedSet Nat) :=
  match edges.get? v with
  | some ends => .ok ends
  | none => .error (.noVertex v)

def successors (graph : Graph) (v : Nat) : Except Fault (SortedSet Nat) := endsOf graph.outgoing v

def predecessors (graph : Graph) (v : Nat) : Except Fault (SortedSet Nat) := endsOf graph.incoming v

/-- The heads of the edges out of a vertex, none if there is no such vertex. -/
def after (graph : Graph) (v : Nat) : List Nat := ((graph.outgoing.get? v).getD .empty).toList

/-- The tails of the edges into a vertex, none if there is no such vertex. -/
def before (graph : Graph) (v : Nat) : List Nat := ((graph.incoming.get? v).getD .empty).toList

def hasEdge (graph : Graph) (source target : Nat) : Bool := target ∈ graph.after source

/-- The vertices, smallest first. -/
def ordered (graph : Graph) : List Nat := (SortedSet.ofList graph.labels.keys).toList

theorem mem_keys_of_hasVertex {graph : Graph} {v : Nat} (isVertex : graph.hasVertex v = true) :
    v ∈ graph.outgoing.keys ∧ v ∈ graph.incoming.keys := by
  rw [graph.keys_outgoing, graph.keys_incoming, and_self]
  exact Table.mem_keys_iff.mpr isVertex

/-! ### Building -/

/-- Adds a vertex without edges, which must be new. -/
def insertVertex (graph : Graph) (v : Nat) (label : String) : Except Fault Graph :=
  if graph.hasVertex v then .error (.duplicateVertex v)
  else .ok {
    labels := graph.labels.insert v label
    outgoing := graph.outgoing.insert v .empty
    incoming := graph.incoming.insert v .empty
    keys_outgoing := by rw [Table.keys_insert, Table.keys_insert, graph.keys_outgoing]
    keys_incoming := by rw [Table.keys_insert, Table.keys_insert, graph.keys_incoming] }

/-- Adds an edge between two vertices, at both ends. -/
def insertEdge (graph : Graph) (source target : Nat) : Except Fault Graph :=
  if isSource : graph.hasVertex source then
    if isTarget : graph.hasVertex target then .ok {
      labels := graph.labels
      outgoing := graph.outgoing.update source .empty (·.insert target)
      incoming := graph.incoming.update target .empty (·.insert source)
      keys_outgoing :=
        (Table.keys_update (mem_keys_of_hasVertex isSource).1).trans graph.keys_outgoing
      keys_incoming :=
        (Table.keys_update (mem_keys_of_hasVertex isTarget).2).trans graph.keys_incoming }
    else .error (.noVertex target)
  else .error (.noVertex source)

/-- Takes a vertex out of what is listed for others. -/
def detach (v : Nat) (others : List Nat) (edges : Table Nat (SortedSet Nat)) :
    Table Nat (SortedSet Nat) :=
  others.foldl (fun edges other => edges.adjust other (·.filter (· ≠ v))) edges

theorem keys_detach (v : Nat) (others : List Nat) (edges : Table Nat (SortedSet Nat)) :
    (detach v others edges).keys = edges.keys := by
  induction others generalizing edges with
  | nil => rfl
  | cons other rest ih => exact (ih _).trans (Table.keys_adjust ..)

/-- Removes a vertex and every edge that touches it, at the other ends that the vertex knows. Where
edges come from is looked up when those that lead away are gone. -/
def remove (graph : Graph) (v : Nat) : Except Fault Graph :=
  if graph.hasVertex v then
    let incoming := detach v (graph.after v) graph.incoming
    let sources := ((incoming.get? v).getD .empty).toList
    .ok {
      labels := graph.labels.erase v
      outgoing := detach v sources (graph.outgoing.erase v)
      incoming := incoming.erase v
      keys_outgoing := by rw [keys_detach, Table.keys_erase, Table.keys_erase, graph.keys_outgoing]
      keys_incoming := by
        rw [Table.keys_erase, Table.keys_erase, keys_detach, graph.keys_incoming] }
  else .error (.noVertex v)

/-! ### Reaching -/

/-- Every end of an edge that some vertex leads to. -/
def targets (graph : Graph) : List Nat := graph.outgoing.values.flatMap SortedSet.toList

theorem mem_targets_of_after {graph : Graph} {v w : Nat} (edge : w ∈ graph.after v) :
    w ∈ graph.targets := by
  unfold after at edge
  cases found : graph.outgoing.get? v with
  | none =>
    rw [found] at edge
    cases edge
  | some ends =>
    rw [found] at edge
    exact List.mem_flatMap.mpr ⟨ends, Table.mem_values_of_get? found, edge⟩

/-- Edges only lead to the ends of edges, of which there are finitely many. -/
theorem confined_after (graph : Graph) : Confined graph.after fun _ => graph.targets :=
  fun _ _ _ edge => mem_targets_of_after edge

/-- The vertices that can be reached from one through at least one edge. -/
def reachable (graph : Graph) (v : Nat) : Except Fault (SortedSet Nat) := do
  let _ ← graph.successors v
  return .ofList (Reachability.closure graph.after graph.confined_after (graph.after v)
    fun _ edge => mem_targets_of_after edge)

/-! ### Cycles -/

/-- Outcome of a search for a cycle: one was found, or these vertices are on none. -/
inductive Search where
  | cycle (vertices : List Nat)
  | clear (finished : List Nat)
  deriving DecidableEq

/-- Every vertex and every end of an edge. -/
def known (graph : Graph) : List Nat := graph.ordered ++ graph.targets

/-- Goes depth first through the pending vertices. `path` leads to them, last vertex first, and
nothing finished is on a cycle. Meeting a vertex of the path closes a cycle. -/
def search (graph : Graph) (path finished pending : List Nat)
    (inside : ∀ v ∈ pending, v ∈ graph.known) : Search :=
  match pending with
  | [] => .clear finished
  | v :: rest =>
    have later : ∀ w ∈ rest, w ∈ graph.known := fun w member =>
      inside w (List.mem_cons_of_mem v member)
    if v ∈ finished then
      graph.search path finished rest later
    else if v ∈ path then
      .cycle (v :: (path.takeWhile (· ≠ v)).reverse ++ [v])
    else
      match graph.search (v :: path) finished (graph.after v) (fun w edge =>
          List.mem_append_right _ (mem_targets_of_after edge)) with
      | .cycle vertices => .cycle vertices
      | .clear finished => graph.search path (v :: finished) rest later
-- A vertex weighs as much as it can add to what is pending, and one more for itself.
termination_by
  Reachability.unseen (fun v => (graph.after v).length + 1) path graph.known + pending.length
decreasing_by
  · exact Nat.lt_succ_self _
  · rename_i fresh
    have lighter := Reachability.unseen_add_le (fun v => (graph.after v).length + 1) graph.known
      (fun _ => List.mem_cons_of_mem v) (inside v List.mem_cons_self) fresh List.mem_cons_self
    simp only [List.length_cons] at *
    omega
  · exact Nat.lt_succ_self _

/-- A cycle, with its first vertex again at the end. -/
def findCycle? (graph : Graph) : Option (List Nat) :=
  match graph.search [] [] graph.ordered (fun _ member => List.mem_append_left _ member) with
  | .cycle vertices => some vertices
  | .clear _ => none

/-! ### Ordering -/

/-- An order being made: the vertices placed so far, those that can be placed next, and for each
vertex how many edges into it start from a vertex that is not placed. -/
structure Arrangement where
  placed : List Nat
  ready : SortedSet Nat
  awaited : Table Nat Int

namespace Arrangement

/-- Nothing is placed, and what no edge leads to is ready. -/
def start (graph : Graph) : Arrangement where
  placed := []
  ready := .ofList (graph.ordered.filter fun v => (graph.before v).isEmpty)
  awaited := ⟨graph.incoming.entries.map fun (v, sources) => (v, sources.size)⟩

/-- Settles an edge into a vertex, which becomes ready if no other edge is awaited. -/
def settle (arrangement : Arrangement) (v : Nat) : Arrangement :=
  match arrangement.awaited.get? v with
  | none => arrangement
  | some count =>
    { arrangement with
      awaited := arrangement.awaited.insert v (count - 1)
      ready := if count = 1 then arrangement.ready.insert v else arrangement.ready }

/-- Places a vertex and settles the edges out of it. -/
def place (graph : Graph) (arrangement : Arrangement) (v : Nat) : Arrangement :=
  (graph.after v).foldl settle
    { arrangement with
      placed := arrangement.placed ++ [v]
      ready := arrangement.ready.filter (· ≠ v) }

/-- Places the smallest ready vertex in each of some rounds, as long as there is one. -/
def rounds (graph : Graph) : Nat → Arrangement → Arrangement
  | 0, arrangement => arrangement
  | count + 1, arrangement =>
    match arrangement.ready.toList with
    | [] => arrangement
    | v :: _ => rounds graph count (place graph arrangement v)

end Arrangement

/-- The vertices in an order in which every edge points forward. Each is placed in a round of its
own, and those on a cycle or behind one are never ready. -/
def topologicalOrder (graph : Graph) : Except Fault (List Nat) :=
  let last := Arrangement.rounds graph graph.size (.start graph)
  if last.placed.length = graph.size then .ok last.placed else .error .cyclicGraph

/-! ### Drawing -/

def quoteLabel (label : String) : String :=
  "\"" ++ "\\\"".intercalate (Text.splitAt '"' label) ++ "\""

/-- The graph as a drawing program reads it. -/
def dot (graph : Graph) : String :=
  let nodes := graph.ordered.map fun v =>
    let label := (graph.labels.get? v).getD ""
    "    " ++ toString v ++ " [label=" ++ quoteLabel label ++ "];\n"
  let edges := graph.ordered.flatMap fun v => (graph.after v).map fun w =>
    "    " ++ toString v ++ " -> " ++ toString w ++ ";\n"
  "digraph tasks \x7b\n    node [shape=\"box\"];\n" ++ String.join (nodes ++ edges) ++ "\x7d"

end Graph

end ProgramAnalysis
