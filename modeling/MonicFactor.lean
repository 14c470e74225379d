import MonicFactor.Job.Launch
import MonicFactor.Main
import MonicFactor.Proofs.Page.Injection
import MonicFactor.Proofs.Polynomial.Acceptance
import MonicFactor.Proofs.Polynomial.Outcome
import MonicFactor.Proofs.Transcript.Listing
import MonicFactor.Response.Reader
import MonicFactor.Proofs.Polynomial.Coefficients
import MonicFactor.Proofs.Polynomial.Reordering
import MonicFactor.Proofs.Job.Ending
import MonicFactor.Proofs.Job.Rendering
import MonicFactor.Proofs.Double.Order
import MonicFactor.Proofs.Job.Blame
import MonicFactor.Proofs.Options.Range
import MonicFactor.Proofs.Job.Arguments
import MonicFactor.Proofs.Polynomial.Completion
import MonicFactor.Proofs.Job.Preceding
import MonicFactor.Proofs.Json.Quoted
import MonicFactor.Proofs.Response.RoundTrip
import MonicFactor.Proofs.Job.Entrances
import MonicFactor.Proofs.Polynomial.Joined
import MonicFactor.Proofs.Polynomial.Spacing
import MonicFactor.Proofs.Page.ReadBack
import MonicFactor.Proofs.Page.Nesting
import MonicFactor.Proofs.Transcript.Conservation
import MonicFactor.Proofs.Polynomial.Image
import MonicFactor.Proofs.Double.Rounding
import MonicFactor.Proofs.Double.Nearest
import MonicFactor.Proofs.Double.ReadBack
import MonicFactor.Proofs.Json.Members
import MonicFactor.Proofs.Json.NumberText
import MonicFactor.Proofs.Job.ReadBack
import MonicFactor.Proofs.Options.FieldValues
import MonicFactor.Proofs.Options.Readings
import MonicFactor.Proofs.Polynomial.Retyped
import MonicFactor.Proofs.Job.Checks
import MonicFactor.Proofs.Job.Decided
import MonicFactor.Proofs.Page.Compact
import MonicFactor.Proofs.Polynomial.Cursor
import MonicFactor.Proofs.Polynomial.Descent
import MonicFactor.Proofs.Polynomial.Unbroken
