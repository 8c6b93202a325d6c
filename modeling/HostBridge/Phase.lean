/-!
# Compilation phases

The front end compiles in nine phases, numbered from one. Compiling is cumulative: to reach a phase
the front end runs each phase after the one it has reached, `Phase.stepsTo`.

* `Phase.mem_stepsTo` — the steps are the phases after the first and not after the target.
-/

namespace HostBridge

inductive Phase where
  | initialization
  | parsing
  /-- Turning the parsed text into class nodes. -/
  | conversion
  /-- Resolving names and checking the class nodes. -/
  | semanticAnalysis
  | canonicalization
  | instructionSelection
  | classGeneration
  | output
  | finalization
deriving DecidableEq, Repr, Inhabited

namespace Phase

def number : Phase → Nat
  | initialization => 1
  | parsing => 2
  | conversion => 3
  | semanticAnalysis => 4
  | canonicalization => 5
  | instructionSelection => 6
  | classGeneration => 7
  | output => 8
  | finalization => 9

def all : List Phase :=
  [initialization, parsing, conversion, semanticAnalysis, canonicalization, instructionSelection,
    classGeneration, output, finalization]

/-- Phases are ordered by their numbers. -/
instance : LE Phase := ⟨fun a b => a.number ≤ b.number⟩

instance : LT Phase := ⟨fun a b => a.number < b.number⟩

instance (a b : Phase) : Decidable (a ≤ b) := inferInstanceAs (Decidable (a.number ≤ b.number))

instance (a b : Phase) : Decidable (a < b) := inferInstanceAs (Decidable (a.number < b.number))

/-- The phases after `current` up to and including `target`, in order. -/
def stepsTo (current target : Phase) : List Phase :=
  all.filter fun phase => current < phase ∧ phase ≤ target

theorem mem_all (phase : Phase) : phase ∈ all := by cases phase <;> decide

theorem mem_stepsTo {current target phase : Phase} :
    phase ∈ stepsTo current target ↔ current < phase ∧ phase ≤ target := by
  simp [stepsTo, mem_all]

end Phase

end HostBridge
