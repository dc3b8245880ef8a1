import ProgramAnalysis.Signature

/-!
Refinement of a client analysis.
-/

namespace ProgramAnalysis

/-- What a refinement step names. -/
inductive Refined where
  | allocations
  | invokes
  | methods
  | vars
  deriving DecidableEq, Repr, Inhabited

namespace Refined

/-- The relation in which a refinement step names them. -/
def relation : Refined → String
  | allocations => "refineH"
  | invokes => "refineI"
  | methods => "refineM"
  | vars => "refineV"

def signature : Refined → Signature
  | allocations => ⟨["H0"], "H0"⟩
  | invokes => ⟨["I0"], "I0"⟩
  | methods => ⟨["M0"], "M0"⟩
  | vars => ⟨["V0"], "V0"⟩

/-- In the order in which they are applied. -/
def all : List Refined := [allocations, invokes, methods, vars]

/-- In the order in which their numbers are reported. -/
def reported : List Refined := [allocations, methods, vars, invokes]

end Refined

/-- The tasks of a refinement loop, and how many rounds it may take. -/
structure Refinement where
  name : String
  base : String
  feedback : String
  refinement : String
  contexts : String
  maxIterations : Nat
  deriving DecidableEq, Repr, Inhabited

namespace Refinement

/-- Refines until every call site that may dispatch to several methods has been tried. -/
def monosite (maxIterations : Nat) : Refinement where
  name := "monosite"
  base := "monosite-dlog"
  feedback := "monosite-feedback-dlog"
  refinement := "refine-hybrid-dlog"
  contexts := "ctxts"
  maxIterations := maxIterations

/-- Refines until every cast that may fail has been tried. -/
def downcast (maxIterations : Nat) : Refinement where
  name := "downcast"
  base := "downcast-dlog"
  feedback := "downcast-feedback-dlog"
  refinement := "refine-hybrid-dlog"
  contexts := "ctxts"
  maxIterations := maxIterations

/-- How a loop ended: how often the client ran, whether nothing was left to refine, and how many
things each step named, in the order of `Refined.reported`. -/
structure Outcome where
  iterations : Nat := 0
  converged : Bool := false
  refinements : List (List Nat) := []
  deriving DecidableEq, Repr, Inhabited

end Refinement

end ProgramAnalysis
