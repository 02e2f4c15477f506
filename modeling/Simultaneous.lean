import Simultaneous.CommandLine
import Simultaneous.Equation.Fault
import Simultaneous.Equation.Literal
import Simultaneous.Equation.Session
import Simultaneous.Equation.Term
import Simultaneous.Error
import Simultaneous.LinearSystem.Basic
import Simultaneous.LinearSystem.Draft
import Simultaneous.Log.Logged
import Simultaneous.Log.Record
import Simultaneous.Main
import Simultaneous.Number.Arithmetic
import Simultaneous.Number.Shortest
import Simultaneous.Number.Written
import Simultaneous.Solution
import Simultaneous.Solve
import Simultaneous.Solver.Basic
import Simultaneous.Solver.Dense
import Simultaneous.Solver.Factorization
import Simultaneous.Solver.Refinement
import Simultaneous.Sparse.Basic
import Simultaneous.Sparse.Store
import Simultaneous.Text.CharClass
import Simultaneous.Text.Separator
import Simultaneous.Proofs.Dense
import Simultaneous.Proofs.Elimination
import Simultaneous.Proofs.Factorization
import Simultaneous.Proofs.Singularity
import Simultaneous.Proofs.Stages
import Simultaneous.Proofs.Classification
import Simultaneous.Proofs.Exact
import Simultaneous.Proofs.CharClasses
import Simultaneous.Proofs.Grammar
import Simultaneous.Proofs.Tokens
import Simultaneous.Proofs.Lines
import Simultaneous.Proofs.Readers
import Simultaneous.Proofs.Lookahead
import Simultaneous.Proofs.Chains
import Simultaneous.Proofs.Documents
import Simultaneous.Proofs.Entering
import Simultaneous.Proofs.Meaning
import Simultaneous.Proofs.Balance
import Simultaneous.Proofs.Refinement
import Simultaneous.Proofs.Solving
import Simultaneous.Proofs.Passes
import Simultaneous.Proofs.Stationary
import Simultaneous.Proofs.Composition
import Simultaneous.Proofs.Doubles
import Simultaneous.Proofs.Finiteness
import Simultaneous.Proofs.Calls
import Simultaneous.Proofs.Directory
import Simultaneous.Proofs.Frames
import Simultaneous.Proofs.Assembly
import Simultaneous.Proofs.Ledger
import Simultaneous.Proofs.Reports
import Simultaneous.Proofs.InPlace
import Simultaneous.Proofs.Histories
import Simultaneous.Proofs.FiniteMaps
import Simultaneous.Proofs.Registers
import Simultaneous.Proofs.Lockstep
import Simultaneous.Proofs.Inversion
import Simultaneous.Proofs.Pivoting
import Simultaneous.Proofs.Multiples
import Simultaneous.Proofs.Continuation
import Simultaneous.Proofs.DoubleOrder
import Simultaneous.Proofs.Strictness
import Simultaneous.Proofs.Loop
import Simultaneous.Proofs.Divisors
import Simultaneous.Proofs.Guards
import Simultaneous.Proofs.GuardedSteps
import Simultaneous.Proofs.Safety
import Simultaneous.Proofs.Decomposition
import Simultaneous.Proofs.Offsets
import Simultaneous.Proofs.Positions
import Simultaneous.Proofs.Spacing
import Simultaneous.Proofs.Renaming
import Simultaneous.Proofs.Equivariance
import Simultaneous.Proofs.Comparisons
import Simultaneous.Proofs.Cursors
import Simultaneous.Proofs.Headway
import Simultaneous.Proofs.Numerals
import Simultaneous.Proofs.Overwriting
import Simultaneous.Proofs.WiderLimits
