import SeparateChaining.Bisection
import SeparateChaining.Ladder
import SeparateChaining.Storage
import SeparateChaining.Storage.Budget
import SeparateChaining.Notice
import SeparateChaining.Panic
import SeparateChaining.Hashing
import SeparateChaining.Hashing.Word
import SeparateChaining.Hashing.Feed
import SeparateChaining.Text.Case
import SeparateChaining.Text.Invisible
import SeparateChaining.Text.Quoted
import SeparateChaining.Text.Layout
import SeparateChaining.Arena
import SeparateChaining.Chains.Buckets
import SeparateChaining.Chains.Basic
import SeparateChaining.Chains.Place
import SeparateChaining.Chains.Move
import SeparateChaining.Chains.Placement
import SeparateChaining.Cursor
import SeparateChaining.Environment
import SeparateChaining.Environment.Op
import SeparateChaining.Environment.Policies
import SeparateChaining.Table.Basic
import SeparateChaining.Table.Iterator
import SeparateChaining.Table.Growth
import SeparateChaining.Table.Lookup
import SeparateChaining.Table.Insertion
import SeparateChaining.Table.Removal
import SeparateChaining.Table.Lifetime
import SeparateChaining.Table.Check
import SeparateChaining.Store
import SeparateChaining.Collection.Basic
import SeparateChaining.Collection.HashSet
import SeparateChaining.Collection.HashBag
import SeparateChaining.Collection.HashMap
import SeparateChaining.Collection.HashMultimap
import SeparateChaining.Scenario.Key
import SeparateChaining.Scenario.Record
import SeparateChaining.Scenario.Probe
import SeparateChaining.Scenario.World
import SeparateChaining.Scenario.Foreign
import SeparateChaining.Scenario.Step
import SeparateChaining.Scenario.Reply
import SeparateChaining.Scenario.Session
import SeparateChaining.Scenario.Transcript
import SeparateChaining.Scenario.Allowance
import SeparateChaining.Scenario.KeyStyle
import SeparateChaining.Scenario.Collection
import SeparateChaining.Scenario.CollectionSession
import SeparateChaining.Proofs.Arena
import SeparateChaining.Proofs.Chains.Segment
import SeparateChaining.Proofs.Chains.WellFormed
import SeparateChaining.Proofs.Chains.Linking
import SeparateChaining.Proofs.Chains.Moving
import SeparateChaining.Proofs.Ladder
import SeparateChaining.Proofs.Hashing
import SeparateChaining.Proofs.Contract
import SeparateChaining.Proofs.Table.Lookup
import SeparateChaining.Proofs.Table.Growth
import SeparateChaining.Proofs.Table.Rehash
import SeparateChaining.Proofs.Table.Insertion
import SeparateChaining.Proofs.Table.Failure
import SeparateChaining.Proofs.Table.Removal
import SeparateChaining.Proofs.Table.Lifetime
import SeparateChaining.Proofs.Table.Check
import SeparateChaining.Proofs.Chains.Traversal
import SeparateChaining.Proofs.Contract.Wild
import SeparateChaining.Proofs.Command
import SeparateChaining.Proofs.Denial
import SeparateChaining.Proofs.Values
import SeparateChaining.Proofs.Run
import SeparateChaining.Proofs.Representation
import SeparateChaining.Proofs.Storage.Budget
import SeparateChaining.Proofs.Storage.Ledger
import SeparateChaining.Proofs.Tally
import SeparateChaining.Proofs.Room
import SeparateChaining.Proofs.Interruption
import SeparateChaining.Proofs.Refusal
import SeparateChaining.Proofs.Accounting
import SeparateChaining.Proofs.Spending
import SeparateChaining.Proofs.Guarantee
import SeparateChaining.Proofs.History
import SeparateChaining.Proofs.Cursors
import SeparateChaining.Proofs.Grouping
import SeparateChaining.Proofs.Bag
import SeparateChaining.Proofs.Contract.Exact
import SeparateChaining.Proofs.Keyed
import SeparateChaining.Proofs.Contract.Heeding
import SeparateChaining.Proofs.Outcome
import SeparateChaining.Proofs.Simulation
import SeparateChaining.Proofs.Regular
import SeparateChaining.Proofs.Verdict
import SeparateChaining.Proofs.Chains.Inspection
import SeparateChaining.Proofs.Promises
import SeparateChaining.Proofs.Coherence
import SeparateChaining.Proofs.Record
import SeparateChaining.Proofs.Record.Hearing
import SeparateChaining.Proofs.Record.Lookup
import SeparateChaining.Proofs.Record.Trace
import SeparateChaining.Proofs.Reentrancy
import SeparateChaining.Proofs.Collection.Serving
import SeparateChaining.Proofs.Collection.Behaviour
import SeparateChaining.Proofs.Collection.Bindings
import SeparateChaining.Proofs.Collection.Mapping
import SeparateChaining.Proofs.Collection.Multiplicity
import SeparateChaining.Proofs.Regrowth
import SeparateChaining.Proofs.Positions
import SeparateChaining.Proofs.Agreement
import SeparateChaining.Proofs.Geometry
import SeparateChaining.Proofs.Determined
import SeparateChaining.Proofs.Renaming
import SeparateChaining.Proofs.Instruction
import SeparateChaining.Proofs.Likeness
import SeparateChaining.Proofs.Indistinct
import SeparateChaining.Proofs.Sweeping
import SeparateChaining.Proofs.Matching
import SeparateChaining.Proofs.Placement
import SeparateChaining.Proofs.Requests
import SeparateChaining.Proofs.Reservation
