import Excerpt.Document
import Excerpt.Proofs.Content
import Excerpt.Proofs.Rows
import Excerpt.Proofs.Composition
import Excerpt.Proofs.Blocks
import Excerpt.Proofs.Sites
import Excerpt.Proofs.Dedent
import Excerpt.Proofs.FirstDefinition
import Excerpt.Proofs.Excerpts
import Excerpt.Proofs.Locality
import Excerpt.Proofs.TokenOrder
import Excerpt.Proofs.Nesting
import Excerpt.Proofs.Parentheses
import Excerpt.Proofs.Injection
import Excerpt.Proofs.Spelling
import Excerpt.Proofs.Literals
import Excerpt.Proofs.Tiling
import Excerpt.Proofs.Remarks
import Excerpt.Proofs.Vocabulary
import Excerpt.Proofs.Structural
import Excerpt.Proofs.Fences
import Excerpt.Proofs.Failures
import Excerpt.Proofs.Returns
import Excerpt.Proofs.ReturnedSites
import Excerpt.Proofs.LineEndings
import Excerpt.Proofs.Positions
import Excerpt.Proofs.Scopes
import Excerpt.Proofs.Tabs
import Excerpt.Proofs.Refusals
import Excerpt.Proofs.Replay
import Excerpt.Proofs.GapLines
import Excerpt.Proofs.Lineages
import Excerpt.Proofs.Decorators
import Excerpt.Proofs.BlockLines
import Excerpt.Proofs.DecoratorLines
import Excerpt.Proofs.Headings
import Excerpt.Proofs.Recasting
import Excerpt.Proofs.LineDepths
import Excerpt.Proofs.ByteOrder
import Excerpt.Proofs.Tables
import Excerpt.Proofs.Walk
