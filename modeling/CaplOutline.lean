import CaplOutline.Decimal.Binary64
import CaplOutline.Decimal.Shortest
import CaplOutline.Document
import CaplOutline.Document.Store
import CaplOutline.Json
import CaplOutline.Json.Shape
import CaplOutline.Outline.Detail
import CaplOutline.Outline.Extract
import CaplOutline.Outline.Header
import CaplOutline.Outline.Machine
import CaplOutline.Outline.Rules
import CaplOutline.Outline.Step
import CaplOutline.Position
import CaplOutline.Server.Capabilities
import CaplOutline.Server.Params
import CaplOutline.Server.Session
import CaplOutline.Server.Wire
import CaplOutline.Settings
import CaplOutline.Settings.Read
import CaplOutline.Symbol
import CaplOutline.Symbol.Listing
import CaplOutline.Text.Blank
import CaplOutline.Text.Change
import CaplOutline.Text.Hidden
import CaplOutline.Text.LineTable
import CaplOutline.Text.Quoted
import CaplOutline.Text.Slice
import CaplOutline.Text.Units
import CaplOutline.Token
import CaplOutline.Token.Cursor
import CaplOutline.Token.Lexeme
import CaplOutline.Uri
import CaplOutline.Proofs.Position
import CaplOutline.Proofs.Token.Reading
import CaplOutline.Proofs.Outline.Run
import CaplOutline.Proofs.Outline.Ranges
import CaplOutline.Proofs.Outline.Braces
import CaplOutline.Proofs.Outline.Regular
import CaplOutline.Proofs.Symbol.Marks
import CaplOutline.Proofs.Outline.Handlers
import CaplOutline.Proofs.Document.Replica
import CaplOutline.Proofs.Outline.Adopt
import CaplOutline.Proofs.Outline.Leads
import CaplOutline.Proofs.Outline.Heads
import CaplOutline.Proofs.Outline.Recognition
import CaplOutline.Proofs.Document.History
import CaplOutline.Proofs.Token.Placement
import CaplOutline.Proofs.Token.Words
import CaplOutline.Proofs.Outline.Moves
import CaplOutline.Proofs.Outline.Nesting
import CaplOutline.Proofs.Outline.Citing
import CaplOutline.Proofs.Outline.Names
import CaplOutline.Proofs.Outline.Deepest
import CaplOutline.Proofs.Outline.Places
import CaplOutline.Proofs.Outline.Blocks
import CaplOutline.Proofs.Outline.Alike
import CaplOutline.Proofs.Outline.Layout
import CaplOutline.Proofs.Token.Joining
import CaplOutline.Proofs.Outline.Joining
import CaplOutline.Proofs.Outline.Scopes
import CaplOutline.Proofs.Symbol.Pruning
import CaplOutline.Proofs.Outline.Locals
import CaplOutline.Proofs.Text.Lines
import CaplOutline.Proofs.Symbol.Listing
import CaplOutline.Proofs.Server.Listing
import CaplOutline.Proofs.Token.Bounds
import CaplOutline.Proofs.Outline.Detail
import CaplOutline.Proofs.Outline.Pieces
import CaplOutline.Proofs.Outline.Faults
import CaplOutline.Proofs.Text.Clamping
import CaplOutline.Proofs.Document.Editing
import CaplOutline.Proofs.Outline.Bodies
import CaplOutline.Proofs.Symbol.Revising
import CaplOutline.Proofs.Outline.Erasing
import CaplOutline.Proofs.Outline.Everywhere
import CaplOutline.Proofs.Outline.Shown
import CaplOutline.Proofs.Outline.Origins
import CaplOutline.Proofs.Outline.Work
import CaplOutline.Proofs.Text.Blanking
import CaplOutline.Proofs.Token.Semicolons
import CaplOutline.Proofs.Outline.Losses
import CaplOutline.Proofs.Outline.Agreeing
import CaplOutline.Proofs.Outline.Recovery
import CaplOutline.Proofs.Token.Gaps
import CaplOutline.Proofs.Token.Spelling
import CaplOutline.Proofs.Token.Lexing
import CaplOutline.Proofs.Token.LineBreaks
import CaplOutline.Proofs.Token.Matching
import CaplOutline.Proofs.Json
import CaplOutline.Proofs.Settings.Forms
import CaplOutline.Proofs.Outline.Owners
import CaplOutline.Proofs.Json.Shape
import CaplOutline.Proofs.Server.Messages
import CaplOutline.Proofs.Server.Session
