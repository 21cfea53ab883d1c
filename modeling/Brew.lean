import Brew.Code.Core
import Brew.Code.Flow
import Brew.Journal
import Brew.Main
import Brew.Scope.Event
import Brew.Semantics.Direct
import Brew.Semantics.Machine
import Brew.Semantics.Scoped
import Brew.Syntax.Grammar
import Brew.Syntax.Readable
import Brew.Proofs.Code.Labels
import Brew.Proofs.Code.Sites
import Brew.Proofs.Semantics.Runs
import Brew.Proofs.Semantics.Lowering
import Brew.Proofs.Parse.Completeness
import Brew.Proofs.Parse.Soundness
import Brew.Proofs.Semantics.Shadowing
import Brew.Proofs.Scope.Violations
import Brew.Proofs.Scope.Checking
import Brew.Proofs.Token.Longest
import Brew.Proofs.Token.Munch
import Brew.Proofs.Token.Layout
import Brew.Proofs.Token.Joining
import Brew.Proofs.Parse.Viability
import Brew.Proofs.Code.Renumbering
import Brew.Proofs.Scope.Frame
import Brew.Proofs.Scope.Simulation
import Brew.Proofs.Scope.Extension
import Brew.Proofs.Stages
import Brew.Proofs.Concatenation
import Brew.Proofs.Token.Lexemes
import Brew.Proofs.Parse.Spelling
import Brew.Proofs.Rendering.Delimited
import Brew.Proofs.Rendering.Listing
import Brew.Proofs.Rendering.Tree
import Brew.Proofs.Rendering.Tokens
import Brew.Proofs.Token.Cursor
import Brew.Proofs.Safety
import Brew.Proofs.Code.Temporaries
import Brew.Proofs.Code.Branching
import Brew.Proofs.Conservation
import Brew.Proofs.Code.Forgetting
import Brew.Proofs.Scope.Inertness
import Brew.Proofs.Formatting
import Brew.Proofs.Trimming
import Brew.Proofs.Conversation
