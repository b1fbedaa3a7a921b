import QueryLoom.Database.Call
import QueryLoom.Execution.Pool
import QueryLoom.Main
import QueryLoom.Proofs.Columns.Projected
import QueryLoom.Proofs.Independence.Verbs
import QueryLoom.Proofs.Lexing.Substitution
import QueryLoom.Proofs.Meaning.Preservation
import QueryLoom.Proofs.Statement.Alignment
import QueryLoom.Statement.Verb
import QueryLoom.Proofs.Results.Inverse
import QueryLoom.Proofs.Renumbering.Names
import QueryLoom.Proofs.Renumbering.Following
import QueryLoom.Proofs.Renumbering.Refusals
import QueryLoom.Proofs.Renumbering.Clauses
import QueryLoom.Proofs.Renumbering.Conditions
import QueryLoom.Proofs.Renumbering.Statements
import QueryLoom.Proofs.Renumbering.History
import QueryLoom.Proofs.Runs.Keeping
import QueryLoom.Proofs.Connection.Trace
import QueryLoom.Proofs.Connection.Ledger
import QueryLoom.Proofs.Values.Keys
import QueryLoom.Proofs.Results.Chunks
import QueryLoom.Proofs.Numbers.Quotient
import QueryLoom.Proofs.Runs.Giving
import QueryLoom.Proofs.Renumbering.Limits
import QueryLoom.Proofs.Runs.Chunks
import QueryLoom.Proofs.Bindings.Leaves
import QueryLoom.Proofs.Bindings.Collisions
import QueryLoom.Proofs.Grammar.Sentences
import QueryLoom.Proofs.Statement.DryRun
import QueryLoom.Proofs.Connection.Atomicity
import QueryLoom.Proofs.Runs.Chronicle
import QueryLoom.Proofs.Json.RoundTrip
import QueryLoom.Proofs.Json.Stored
import QueryLoom.Proofs.Prefixes.Clauses
import QueryLoom.Proofs.Prefixes.Conditions
import QueryLoom.Proofs.Prefixes.Projections
import QueryLoom.Proofs.Prefixes.Statements
import QueryLoom.Proofs.Prefixes.Verbs
import QueryLoom.Proofs.Dialects.Resolution
import QueryLoom.Proofs.Runs.Transactions
import QueryLoom.Proofs.Runs.DryRuns
import QueryLoom.Proofs.Lexing.Splicing
import QueryLoom.Proofs.Pool.Balance
import QueryLoom.Proofs.Statement.Destructive
import QueryLoom.Proofs.Failures.Surfacing
import QueryLoom.Proofs.Faults.Verbs
import QueryLoom.Proofs.Statement.Assignments
import QueryLoom.Proofs.Meaning.Calls
import QueryLoom.Proofs.Results.Wildcards
import QueryLoom.Proofs.Results.Coercions
import QueryLoom.Proofs.Statement.Insertions
import QueryLoom.Proofs.Statement.WrittenColumns
import QueryLoom.Proofs.Styles.Markers
import QueryLoom.Proofs.Lexing.Expansion
import QueryLoom.Proofs.Lexing.StringLiterals
import QueryLoom.Proofs.Runs.FirstRow
import QueryLoom.Proofs.Runs.Replacements
import QueryLoom.Proofs.Keys.ColumnRefs
import QueryLoom.Proofs.Lexing.TableKeywords
import QueryLoom.Proofs.Results.WholeNumbers
import QueryLoom.Proofs.Runs.Aggregates
import QueryLoom.Proofs.Keys.Grammars
import QueryLoom.Proofs.Columns.Walk
