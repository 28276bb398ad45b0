import Waterjet.Main
import Waterjet.Proofs.Course
import Waterjet.Proofs.Retention
import Waterjet.Proofs.Chain
import Waterjet.Proofs.Pierces
import Waterjet.Proofs.Pieces
import Waterjet.Proofs.Printing
import Waterjet.Proofs.Layout
import Waterjet.Proofs.SkippedLines
import Waterjet.Proofs.Verdict
import Waterjet.Proofs.FirstWords
import Waterjet.Proofs.Accounts
import Waterjet.Proofs.Confinement
import Waterjet.Proofs.Appending
import Waterjet.Proofs.Encoding
import Waterjet.Proofs.LineEnds
import Waterjet.Proofs.Measures
import Waterjet.Proofs.Doubles
import Waterjet.Proofs.Hull
import Waterjet.Proofs.Reals
import Waterjet.Proofs.Sweeps
import Waterjet.Proofs.Sampling
import Waterjet.Proofs.Replay
import Waterjet.Proofs.Vertices
import Waterjet.Proofs.Faults
import Waterjet.Proofs.Arguments
import Waterjet.Proofs.Endings
import Waterjet.Proofs.Answers
import Waterjet.Proofs.Signed
import Waterjet.Proofs.Arithmetic
import Waterjet.Proofs.Decoding
import Waterjet.Proofs.Loading
import Waterjet.Proofs.Magnitudes
import Waterjet.Proofs.Turns
import Waterjet.Proofs.Usable
import Waterjet.Proofs.Repetition
import Waterjet.Proofs.Spacing
import Waterjet.Proofs.Nearest
import Waterjet.Proofs.Grammar
import Waterjet.Proofs.Numerals
import Waterjet.Proofs.Objects
import Waterjet.Proofs.RoundTrip
import Waterjet.Proofs.Ranges
import Waterjet.Proofs.Mixed
import Waterjet.Proofs.Validation
import Waterjet.Proofs.Precedence
import Waterjet.Proofs.Segments
import Waterjet.Proofs.Durations
import Waterjet.Proofs.Differences
