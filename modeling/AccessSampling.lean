import AccessSampling.IntervalStats
import AccessSampling.IntervalStats.Json
import AccessSampling.PerClass
import AccessSampling.Duration
import AccessSampling.HotHeap
import AccessSampling.Options
import AccessSampling.Options.Validation
import AccessSampling.Score
import AccessSampling.Table
import AccessSampling.ItemTable
import AccessSampling.Record
import AccessSampling.Resolver
import AccessSampling.RingBuffer
import AccessSampling.Ring
import AccessSampling.Tally
import AccessSampling.Counters
import AccessSampling.Drain
import AccessSampling.Budget
import AccessSampling.Fault
import AccessSampling.Error
import AccessSampling.Period
import AccessSampling.AdaptiveLoop
import AccessSampling.QuotaLoop
import AccessSampling.Controller
import AccessSampling.Json
import AccessSampling.Json.Reader
import AccessSampling.Json.Fields
import AccessSampling.Options.Json
import AccessSampling.Record.Json
import AccessSampling.Proofs.AccessTimes
import AccessSampling.Proofs.RunningMean
import AccessSampling.Proofs.SquaredDeviations
import AccessSampling.Proofs.DrainRun
import AccessSampling.Proofs.Hysteresis
import AccessSampling.Proofs.BudgetBound
import AccessSampling.Proofs.BudgetShares
import AccessSampling.Proofs.Rounds
import AccessSampling.Proofs.ScalingRounds
import AccessSampling.Proofs.PeriodMapping
import AccessSampling.Proofs.SourceCalls
import AccessSampling.Proofs.AdaptiveCycle
import AccessSampling.Proofs.SampleBudget
import AccessSampling.Proofs.FirstCome
import AccessSampling.Proofs.TallyRun
import AccessSampling.Proofs.IntakeRun
import AccessSampling.Proofs.DrainHistory
import AccessSampling.Proofs.Bookkeeping
import AccessSampling.Proofs.FluctuationGrowth
import AccessSampling.Proofs.ScoreMonotone
import AccessSampling.Proofs.ScoreGrowth
import AccessSampling.Proofs.Emptying
import AccessSampling.Proofs.Takes
import AccessSampling.Proofs.PageVerdicts
import AccessSampling.Proofs.PageReference
import AccessSampling.Proofs.Startup
import AccessSampling.Proofs.ControllerRun
import AccessSampling.Proofs.ControllerAtWork
import AccessSampling.Proofs.KnownPeriods
import AccessSampling.Proofs.PeriodHull
import AccessSampling.Proofs.Settling
import AccessSampling.Proofs.JobCalls
import AccessSampling.Proofs.RetunableClasses
import AccessSampling.Proofs.CompletedJobs
import AccessSampling.Proofs.CycleRefusals
import AccessSampling.Proofs.FailureCounts
import AccessSampling.Proofs.Shutdown
import AccessSampling.Proofs.RingPositions
import AccessSampling.Proofs.ControlSign
import AccessSampling.Proofs.QuotaRecovery
import AccessSampling.Proofs.LogLines
import AccessSampling.Proofs.CoarseSteps
import AccessSampling.Proofs.HeapOrder
import AccessSampling.Proofs.OneHit
import AccessSampling.Proofs.Sifting
import AccessSampling.Proofs.Checked.Operations
import AccessSampling.Proofs.Checked.Tally
import AccessSampling.Proofs.Checked.Scores
import AccessSampling.Proofs.Checked.Periods
import AccessSampling.Proofs.Checked.Jobs
import AccessSampling.Proofs.Checked.Start
import AccessSampling.Proofs.Checked.Controller
import AccessSampling.Proofs.DisorderedTimes
import AccessSampling.Proofs.OneObservation
import AccessSampling.Proofs.PassLooks
import AccessSampling.Proofs.RawComposite
import AccessSampling.Proofs.VisitShares
import AccessSampling.Proofs.WrittenForms
