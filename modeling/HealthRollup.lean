import HealthRollup.Config.Credentials
import HealthRollup.Loop.Workers
import HealthRollup.Main
import HealthRollup.Query.InFlight
import HealthRollup.Rehearsal.Run
import HealthRollup.Server.Liveness
import HealthRollup.Proofs.Accounting
import HealthRollup.Proofs.Addresses
import HealthRollup.Proofs.Answers
import HealthRollup.Proofs.Balance
import HealthRollup.Proofs.Calendar
import HealthRollup.Proofs.Course
import HealthRollup.Proofs.Due
import HealthRollup.Proofs.Elapsed
import HealthRollup.Proofs.Fleet
import HealthRollup.Proofs.Flights
import HealthRollup.Proofs.HealthCheck
import HealthRollup.Proofs.Isolation
import HealthRollup.Proofs.Lifetime
import HealthRollup.Proofs.Monotone
import HealthRollup.Proofs.NormalForm
import HealthRollup.Proofs.Numerals
import HealthRollup.Proofs.Objects
import HealthRollup.Proofs.Places
import HealthRollup.Proofs.Precedence
import HealthRollup.Proofs.RateLimit
import HealthRollup.Proofs.Reading
import HealthRollup.Proofs.Reload
import HealthRollup.Proofs.Replies
import HealthRollup.Proofs.RequestLines
import HealthRollup.Proofs.Requests
import HealthRollup.Proofs.Separation
import HealthRollup.Proofs.Shelf
import HealthRollup.Proofs.Shifts
import HealthRollup.Proofs.Spellings
import HealthRollup.Proofs.Timestamps
import HealthRollup.Proofs.Verdict
import HealthRollup.Proofs.Wire
import HealthRollup.Proofs.WriteBack
