import Type2Glyphs.Bytes.Numerals
import Type2Glyphs.Charstring.Encoding
import Type2Glyphs.Fixed.RootBounds
import Type2Glyphs.FloatingPoint
import Type2Glyphs.Index.Layout
import Type2Glyphs.Load.Glyph
import Type2Glyphs.Outline.Path
import Type2Glyphs.Proofs.Coupling
import Type2Glyphs.Proofs.Coupling.Evaluate
import Type2Glyphs.Proofs.Draft.Steps
import Type2Glyphs.Proofs.Draft.Coupling
import Type2Glyphs.Proofs.Loading
import Type2Glyphs.Proofs.MetricsOnly
import Type2Glyphs.Proofs.Draft.Sketch
import Type2Glyphs.Proofs.WellFormed
import Type2Glyphs.Proofs.Components
import Type2Glyphs.Proofs.Forks
import Type2Glyphs.Proofs.Accent
import Type2Glyphs.Proofs.Program.Locality
import Type2Glyphs.Proofs.Program.Run
import Type2Glyphs.Proofs.Program.Inlining
import Type2Glyphs.Proofs.Law
import Type2Glyphs.Proofs.Law.Effect
import Type2Glyphs.Proofs.NestingLimit
import Type2Glyphs.Proofs.StoreEvents
import Type2Glyphs.Proofs.Hint.Listener
import Type2Glyphs.Proofs.Hint.Following
import Type2Glyphs.Proofs.Hint.Calls
import Type2Glyphs.Proofs.Hint.Advisory
import Type2Glyphs.Proofs.ControlBox
import Type2Glyphs.Proofs.Index.Frame
import Type2Glyphs.Proofs.Index.RoundTrip
import Type2Glyphs.Proofs.Draft.History
import Type2Glyphs.Proofs.Strict.Draft
import Type2Glyphs.Proofs.Strict.Evaluate
import Type2Glyphs.Proofs.Program.Truncation
import Type2Glyphs.Proofs.Path.Expansion
import Type2Glyphs.Proofs.Path.Singly
import Type2Glyphs.Proofs.Draft.Additions
import Type2Glyphs.Proofs.Displacement
import Type2Glyphs.Proofs.Width.Load
import Type2Glyphs.Proofs.Scaling
import Type2Glyphs.Proofs.Outline.Drawing
import Type2Glyphs.Proofs.Outline.Implied
import Type2Glyphs.Proofs.FontDicts
import Type2Glyphs.Proofs.Hint.Masks
import Type2Glyphs.Proofs.Stack.Calls
import Type2Glyphs.Proofs.Kinds.Evaluate
import Type2Glyphs.Proofs.Program.Numbers
import Type2Glyphs.Proofs.Draft.Refusals
import Type2Glyphs.Proofs.Draft.Whole
import Type2Glyphs.Proofs.Composition
import Type2Glyphs.Proofs.Pen.Accounting
import Type2Glyphs.Proofs.Program.Subroutines
import Type2Glyphs.Proofs.Random.Blind
import Type2Glyphs.Proofs.Random.Stream
import Type2Glyphs.Proofs.Random.Seeds
