import CssGuard.Arguments
import CssGuard.Automaton
import CssGuard.Declaration
import CssGuard.Escape
import CssGuard.Event.Basic
import CssGuard.Event.Declarations
import CssGuard.Event.Statements
import CssGuard.Fuzz.Campaign
import CssGuard.Fuzz.Check
import CssGuard.Fuzz.Generate
import CssGuard.Fuzz.Tape
import CssGuard.Import.Run
import CssGuard.Import.Session
import CssGuard.Inspect
import CssGuard.Issue
import CssGuard.Lexeme
import CssGuard.Main
import CssGuard.Markup
import CssGuard.Media
import CssGuard.Report
import CssGuard.Schema.Basic
import CssGuard.Schema.Default
import CssGuard.Selector.Attribute
import CssGuard.Selector.Compound
import CssGuard.Selector.Confinement
import CssGuard.Selector.List
import CssGuard.Selector.Split
import CssGuard.Sheet.Basic
import CssGuard.Sheet.Sanitize
import CssGuard.StyleAttribute
import CssGuard.Text.Ascii
import CssGuard.Text.Basic
import CssGuard.Text.Blank
import CssGuard.Text.Digit
import CssGuard.Text.Lower
import CssGuard.Text.Order
import CssGuard.Text.Printable
import CssGuard.Text.Quoted
import CssGuard.Text.Ranges
import CssGuard.Text.Word
import CssGuard.Token
import CssGuard.Trace
import CssGuard.Url.Authority
import CssGuard.Url.Policy
import CssGuard.Url.Reference
import CssGuard.Value.Call
import CssGuard.Value.Form
import CssGuard.Value.Sanitize
import CssGuard.Proofs.Text.Classes
import CssGuard.Proofs.Text.Lower
import CssGuard.Proofs.Escape
import CssGuard.Proofs.Lexer.Longest
import CssGuard.Proofs.Lexer.Reading
import CssGuard.Proofs.Lexer.Readers
import CssGuard.Proofs.Lexer.Spelling
import CssGuard.Proofs.Lexer.Numerals
import CssGuard.Proofs.Lexer.Shapes
import CssGuard.Proofs.Lexer.TokenTests
import CssGuard.Proofs.Url.Escape
import CssGuard.Proofs.Url.Authority
import CssGuard.Proofs.Url.Rules
import CssGuard.Proofs.Value.Scraps
import CssGuard.Proofs.Value.Tree
import CssGuard.Proofs.Value.Emitted
import CssGuard.Proofs.Selector.Pieces
import CssGuard.Proofs.Selector.Syntax
import CssGuard.Proofs.Value.Written
import CssGuard.Proofs.Selector.Reading
import CssGuard.Proofs.Selector.Structure
import CssGuard.Proofs.Selector.Splitting
import CssGuard.Proofs.Selector.Grammar
import CssGuard.Proofs.Selector.Lists
import CssGuard.Proofs.Selector.Spaces
import CssGuard.Proofs.Selector.Scope
import CssGuard.Proofs.Selector.Sensitivity
import CssGuard.Proofs.Selector.Renewal
import CssGuard.Proofs.Selector.Confinement
import CssGuard.Proofs.Selector.Matching
import CssGuard.Proofs.Media
import CssGuard.Proofs.Media.Grammar
import CssGuard.Proofs.Event.Statements
import CssGuard.Proofs.Event.Rules
import CssGuard.Proofs.Event.Rendering
import CssGuard.Proofs.Event.Recovery
import CssGuard.Proofs.Event.Declarations
import CssGuard.Proofs.Declaration
import CssGuard.Proofs.Sheet.Items
import CssGuard.Proofs.Sheet.Run
import CssGuard.Proofs.Sheet.Structure
import CssGuard.Proofs.Sheet.History
import CssGuard.Proofs.Consultations
import CssGuard.Proofs.Sheet.Urls
import CssGuard.Proofs.Value.Forms
import CssGuard.Proofs.Value.Renewal
import CssGuard.Proofs.Sheet.Lines
import CssGuard.Proofs.Sheet.Renewal
import CssGuard.Proofs.Sheet.Idempotence
import CssGuard.Proofs.Import.Outline
import CssGuard.Proofs.Import.Session
import CssGuard.Proofs.Import.Steps
import CssGuard.Proofs.Import.Tracks
import CssGuard.Proofs.Import.Splice
import CssGuard.Proofs.Import.Completion
import CssGuard.Proofs.Import.Continuations
import CssGuard.Proofs.Import.Requests
import CssGuard.Proofs.Import.Counters
import CssGuard.Proofs.Sheet.Recursion
import CssGuard.Proofs.StyleAttribute
import CssGuard.Proofs.Sheet.Characters
import CssGuard.Proofs.Sheet.Markup
import CssGuard.Proofs.Lexer.NormalForms
import CssGuard.Proofs.Lexer.RoundTrip
import CssGuard.Proofs.Value.Permitted
import CssGuard.Proofs.Value.Refusal
import CssGuard.Proofs.Value.Silence
import CssGuard.Proofs.Value.Inert
import CssGuard.Proofs.Value.Invariance
import CssGuard.Proofs.Value.Calls
import CssGuard.Proofs.Value.Decimal
import CssGuard.Proofs.Value.Quantity
import CssGuard.Proofs.Schema.Tables
import CssGuard.Proofs.Text.Quotes
import CssGuard.Proofs.Sheet.Quotes
import CssGuard.Proofs.Url.Resolution
import CssGuard.Proofs.Fuzz.Alarms
