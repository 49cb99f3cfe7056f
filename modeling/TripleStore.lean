import TripleStore.Main
import TripleStore.Repository.History
import TripleStore.Proofs.Term.RoundTrip
import TripleStore.Proofs.Repository.State
import TripleStore.Proofs.Repository.Moves
import TripleStore.Proofs.Repository.Locks
import TripleStore.Proofs.Repository.Isolation
import TripleStore.Proofs.Repository.Commits
import TripleStore.Proofs.Repository.Serial
import TripleStore.Proofs.Graph.Basic
import TripleStore.Proofs.Repository.Acknowledged
import TripleStore.Proofs.Archive.Load
import TripleStore.Proofs.Archive.Refinement
import TripleStore.Proofs.Archive.Rows
import TripleStore.Proofs.Repository.Backing
import TripleStore.Proofs.Repository.Calm
import TripleStore.Proofs.Repository.Durable
import TripleStore.Proofs.Repository.Legible
import TripleStore.Proofs.Repository.Reopening
import TripleStore.Proofs.Graph.Merge
import TripleStore.Proofs.Turtle.Parser
import TripleStore.Proofs.Turtle.Extension
import TripleStore.Proofs.NTriples.RoundTrip
import TripleStore.Proofs.Repository.Commit
import TripleStore.Proofs.Repository.Inert
import TripleStore.Proofs.Document.Dump
import TripleStore.Proofs.Blank.Identity
import TripleStore.Proofs.Document.Gather
import TripleStore.Proofs.NTriples.Lines
import TripleStore.Proofs.Document.Concat
import TripleStore.Proofs.Sorting
import TripleStore.Proofs.Term.Order
import TripleStore.Proofs.Graph.Listing
import TripleStore.Proofs.Repository.Search
import TripleStore.Proofs.Token.Cover
import TripleStore.Proofs.Document.Spacing
import TripleStore.Proofs.Document.Ending
import TripleStore.Proofs.Turtle.Calls
import TripleStore.Proofs.Token.Number
import TripleStore.Proofs.Token.LongString
import TripleStore.Proofs.NTriples.Sink
import TripleStore.Proofs.Graph.Drawing
