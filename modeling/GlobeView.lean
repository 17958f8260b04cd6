import GlobeView.Hash.Session
import GlobeView.Label
import GlobeView.Document.Text
import GlobeView.Main
import GlobeView.Proofs.Number.Digits
import GlobeView.Proofs.Text.Runs
import GlobeView.Proofs.Text.Pieces
import GlobeView.Proofs.Hash.Option
import GlobeView.Proofs.Hash.Front
import GlobeView.Proofs.Hash.RoundTrip
import GlobeView.Proofs.Hash.Sessions
import GlobeView.Proofs.Number.Mantissa
import GlobeView.Proofs.Number.Unpacked
import GlobeView.Proofs.Number.Packing
import GlobeView.Proofs.Number.Doubles
import GlobeView.Proofs.Number.Proportion
import GlobeView.Proofs.Color.Ramp
import GlobeView.Proofs.Color.Gamut
import GlobeView.Proofs.Scale.Segmented
import GlobeView.Proofs.Scale.Gamut
import GlobeView.Proofs.Scale.Monotone
import GlobeView.Proofs.Names
import GlobeView.Proofs.Hash.Fields
import GlobeView.Proofs.Hash.KnownNames
import GlobeView.Proofs.Calendar.Date
import GlobeView.Proofs.Calendar.Moment
import GlobeView.Proofs.Document.Json.Token
import GlobeView.Proofs.Document.Json.RoundTrip
import GlobeView.Proofs.Document.Fields
import GlobeView.Proofs.Document.Json.Reader
import GlobeView.Proofs.Document.Configuration
import GlobeView.Proofs.Document.Reordering
import GlobeView.Proofs.Document.Scale.Definition
import GlobeView.Proofs.Document.Scale.Written
import GlobeView.Proofs.Document.Scale.Set
import GlobeView.Proofs.Hash.Segments
import GlobeView.Proofs.Hash.Accepted
import GlobeView.Proofs.Number.Fixed
import GlobeView.Proofs.Hash.Ends
import GlobeView.Proofs.Number.Shortest
import GlobeView.Proofs.Scale.Validity
import GlobeView.Proofs.Scale.Bounds
import GlobeView.Proofs.Color.Style
import GlobeView.Proofs.Color.WindPalette
import GlobeView.Proofs.Calendar.Redelimit
import GlobeView.Proofs.Scale.Fade
import GlobeView.Proofs.Number.Increment
import GlobeView.Proofs.Number.Whole
import GlobeView.Proofs.Number.Quotient
import GlobeView.Proofs.Number.Remainder
import GlobeView.Proofs.Label
import GlobeView.Proofs.CommandLine.Given
import GlobeView.Proofs.Color.Samples
