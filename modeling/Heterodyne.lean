import Heterodyne.Bandwidth.Label
import Heterodyne.Bandwidth.Mode
import Heterodyne.Binary64.Basic
import Heterodyne.Binary64.Hypotenuse
import Heterodyne.Binary64.Rounding
import Heterodyne.Configuration
import Heterodyne.Configuration.Document
import Heterodyne.Count
import Heterodyne.Cube
import Heterodyne.Decimal.Notation
import Heterodyne.Decimal.Shortest
import Heterodyne.Decimal.Significant
import Heterodyne.Grid.Axis
import Heterodyne.Grid.Basic
import Heterodyne.Header
import Heterodyne.Instrument
import Heterodyne.Json.Basic
import Heterodyne.Json.Reader
import Heterodyne.Json.Writer
import Heterodyne.Log
import Heterodyne.Mode.Basic
import Heterodyne.Mode.Classify
import Heterodyne.Observation.Descriptor
import Heterodyne.Observation.Iterator
import Heterodyne.Observation.Offset
import Heterodyne.Observation.Pattern
import Heterodyne.Observation.Request
import Heterodyne.Observation.Switching
import Heterodyne.Quantity
import Heterodyne.Refusal
import Heterodyne.Routing
import Heterodyne.Run
import Heterodyne.Scalar
import Heterodyne.Settings
import Heterodyne.Spectrum.Plan
import Heterodyne.Spectrum.WindowId
import Heterodyne.Table
import Heterodyne.Text.UpperCase
import Heterodyne.Timing
import Heterodyne.Wiring.Basic
import Heterodyne.Wiring.Document
import Heterodyne.Proofs.Outcome
import Heterodyne.Proofs.Routing.Claims
import Heterodyne.Proofs.Routing.Outcome
import Heterodyne.Proofs.Routing.Planned
import Heterodyne.Proofs.Configuration.Consistent
import Heterodyne.Proofs.Spectrum.Numbered
import Heterodyne.Proofs.Spectrum.Overflow
import Heterodyne.Proofs.Grid.Overflow
import Heterodyne.Proofs.Timing.Overflow
import Heterodyne.Proofs.Configuration.Batch
import Heterodyne.Proofs.Observation.Descriptor
import Heterodyne.Proofs.Observation.Valid
import Heterodyne.Proofs.Configuration.Refusal
import Heterodyne.Proofs.Configuration.WindowTree
import Heterodyne.Proofs.Configuration.FewerSubsystems
import Heterodyne.Proofs.Binary64.Value
import Heterodyne.Proofs.Binary64.Packing
import Heterodyne.Proofs.Binary64.Nearest
import Heterodyne.Proofs.Binary64.Operations
import Heterodyne.Proofs.Binary64.Whole
import Heterodyne.Proofs.Binary64.Spacing
import Heterodyne.Proofs.Binary64.Range
import Heterodyne.Proofs.Settings
import Heterodyne.Proofs.Spectrum.Tuning
import Heterodyne.Proofs.Configuration.Tuned
import Heterodyne.Proofs.Configuration.Applicable
import Heterodyne.Proofs.Grid.Distinct
import Heterodyne.Proofs.Configuration.Rearranged
import Heterodyne.Proofs.Exact
import Heterodyne.Proofs.Grid.Lattice
import Heterodyne.Proofs.Grid.Covered
import Heterodyne.Proofs.Grid.SinglePixel
import Heterodyne.Proofs.Grid.Divisor
import Heterodyne.Proofs.Grid.Row
import Heterodyne.Proofs.Grid.RoundTrip
import Heterodyne.Proofs.Grid.Jiggled
import Heterodyne.Proofs.Timing.Scheduled
import Heterodyne.Proofs.Timing.Integration
import Heterodyne.Proofs.Configuration.ExactlyTuned
import Heterodyne.Proofs.Spectrum.Tiled
import Heterodyne.Proofs.Timing.Rows
import Heterodyne.Proofs.Grid.Turned
import Heterodyne.Proofs.Decimal.Shortest
import Heterodyne.Proofs.Bandwidth.Label
import Heterodyne.Proofs.Spectrum.Labelled
import Heterodyne.Proofs.Binary64.Round
import Heterodyne.Proofs.Spectrum.Ascending
import Heterodyne.Proofs.Spectrum.Covered
import Heterodyne.Proofs.Spectrum.Lookup
import Heterodyne.Proofs.Routing.Standby
import Heterodyne.Proofs.Routing.Enabled
import Heterodyne.Proofs.Configuration.Multiplicity
import Heterodyne.Proofs.Wiring.Listed
import Heterodyne.Proofs.Routing.Array
import Heterodyne.Proofs.Json.Grammar
import Heterodyne.Proofs.Json.Reader
import Heterodyne.Proofs.Json.Writer
import Heterodyne.Proofs.Wiring.Document
import Heterodyne.Proofs.Ensures
import Heterodyne.Proofs.Configuration.Counted
import Heterodyne.Proofs.Diagnostics
import Heterodyne.Proofs.Grid.Raster
import Heterodyne.Proofs.Timing.Reference
import Heterodyne.Proofs.Bandwidth.Spelling
import Heterodyne.Proofs.Keyword
import Heterodyne.Proofs.Grid.Thinned
