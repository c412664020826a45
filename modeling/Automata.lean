import Automata.Fault
import Automata.RowMajor
import Automata.Indexed
import Automata.Shape
import Automata.BitSet.Words
import Automata.BitSet.Basic
import Automata.BitSet.Iterator
import Automata.StateSet
import Automata.Journal
import Automata.Log
import Automata.Defect
import Automata.Table.Basic
import Automata.Table.Rules
import Automata.Automaton.Basic
import Automata.Automaton.Draft
import Automata.Automaton.Boolean
import Automata.Automaton.Runner
import Automata.Automaton.Trace
import Automata.Automaton.Batch
import Automata.Language.Search
import Automata.Language.Decision
import Automata.Language.Counting
import Automata.Text.Unprintable
import Automata.Text.Quoted
import Automata.CommandLine
import Automata.Demo.Session
import Automata.Demo.Simple
import Automata.Demo.Divisibility
import Automata.Demo.Batch
import Automata.Demo
import Automata.Main
import Automata.Proofs.Checked
import Automata.Proofs.Numbering
import Automata.Proofs.Members
import Automata.Proofs.SetHistories
import Automata.Proofs.Runs
import Automata.Proofs.Pieces
import Automata.Proofs.Tables
import Automata.Proofs.Combinations
import Automata.Proofs.Expressions
import Automata.Proofs.Discovery
import Automata.Proofs.Answers
import Automata.Proofs.Decisions
import Automata.Proofs.Counts
import Automata.Proofs.Partiality
import Automata.Proofs.Tabulation
import Automata.Proofs.Rules
import Automata.Proofs.Drafts
import Automata.Proofs.Descriptions
import Automata.Proofs.Shapes
import Automata.Proofs.ShortestWords
import Automata.Proofs.Census
import Automata.Proofs.Totality
import Automata.Proofs.Visits
import Automata.Proofs.Distinguishing
import Automata.Proofs.Lockstep
import Automata.Proofs.RuleSets
import Automata.Proofs.Walks
import Automata.Proofs.SetAlgebra
import Automata.Proofs.Traces
import Automata.Proofs.ReadingNumbers
import Automata.Proofs.RowOrder
import Automata.Proofs.TypedSets
import Automata.Proofs.TableEntries
import Automata.Proofs.DefaultRules
import Automata.Proofs.Capacity
import Automata.Proofs.CountedSearch
import Automata.Proofs.CountedCombinations
import Automata.Proofs.Batches
import Automata.Proofs.Transcripts
import Automata.Proofs.Numerals
import Automata.Proofs.Remainders
import Automata.Proofs.Divisibility
import Automata.Proofs.Cells
import Automata.Proofs.Frontier
import Automata.Proofs.Arguments
import Automata.Proofs.Recognition
