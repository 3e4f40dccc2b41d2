import TeamLedger.Application
import TeamLedger.CreditLimit
import TeamLedger.Query.Form
import TeamLedger.Readjustment
import TeamLedger.World
import TeamLedger.Proofs.Rows
import TeamLedger.Proofs.Writes
import TeamLedger.Proofs.Answers
import TeamLedger.Proofs.Programs
import TeamLedger.Proofs.Sessions
import TeamLedger.Proofs.Isolation
import TeamLedger.Proofs.Logs
import TeamLedger.Proofs.Commit
import TeamLedger.Proofs.Moves
import TeamLedger.Proofs.Selecting
import TeamLedger.Proofs.Effects
import TeamLedger.Proofs.Reversing
import TeamLedger.Proofs.Workflows
import TeamLedger.Proofs.Creating
import TeamLedger.Proofs.Paying
import TeamLedger.Proofs.Rejecting
import TeamLedger.Proofs.Readjusting
import TeamLedger.Proofs.Floor
import TeamLedger.Proofs.Runs
import TeamLedger.Proofs.Batches
import TeamLedger.Proofs.Undivided
import TeamLedger.Proofs.Settlement
import TeamLedger.Proofs.Endings
import TeamLedger.Proofs.Reading
import TeamLedger.Proofs.WorkingSets
import TeamLedger.Proofs.Lives
import TeamLedger.Proofs.Pairs
import TeamLedger.Proofs.Assuring
import TeamLedger.Proofs.Converging
import TeamLedger.Proofs.Rounds
import TeamLedger.Proofs.Rivals
import TeamLedger.Proofs.Locks
import TeamLedger.Proofs.LockMarks
import TeamLedger.Proofs.Trespasses
import TeamLedger.Proofs.CachedReports
import TeamLedger.Proofs.LimitNotes
import TeamLedger.Proofs.Crossings
import TeamLedger.Proofs.LimitKeys
import TeamLedger.Proofs.Inquiries
import TeamLedger.Proofs.Accepting
import TeamLedger.Proofs.JoinPlans
import TeamLedger.Proofs.SelectTexts
import TeamLedger.Proofs.Joining
import TeamLedger.Proofs.Finding
import TeamLedger.Proofs.Bookkeeping
import TeamLedger.Proofs.AuditTrail
import TeamLedger.Proofs.Counting
import TeamLedger.Proofs.Registry
import TeamLedger.Proofs.Updates
import TeamLedger.Proofs.Placeholders
import TeamLedger.Proofs.LimitMaps
import TeamLedger.Proofs.Clerks
import TeamLedger.Proofs.References
import TeamLedger.Proofs.Citing
import TeamLedger.Proofs.Integrity
import TeamLedger.Proofs.OldestFirst
import TeamLedger.Proofs.Scopes
import TeamLedger.Proofs.Lasting
import TeamLedger.Proofs.Clearing
import TeamLedger.Proofs.Calendar
import TeamLedger.Proofs.Spellings
import TeamLedger.Proofs.RecordForms
import TeamLedger.Proofs.Balancing
import TeamLedger.Proofs.Mismatches
import TeamLedger.Proofs.Refusals
import TeamLedger.Proofs.Marks
import TeamLedger.Proofs.Releasing
import TeamLedger.Proofs.Resubmitting
import TeamLedger.Proofs.Chains
import TeamLedger.Proofs.Debts
import TeamLedger.Proofs.Magnitudes
import TeamLedger.Proofs.TrueSums
import TeamLedger.Proofs.Accuracy
import TeamLedger.Proofs.AllOrNothing
import TeamLedger.Proofs.Expiries
import TeamLedger.Proofs.Inserting
