import FragmentMemory.AnchorRetention
import FragmentMemory.AuthenticationPaths
import FragmentMemory.BatchRecovery
import FragmentMemory.CaseChain
import FragmentMemory.CaseEventSequence
import FragmentMemory.CausalChains
import FragmentMemory.CbrEligibility
import FragmentMemory.CircuitBreaker
import FragmentMemory.ClaimConflicts
import FragmentMemory.CliArchive
import FragmentMemory.CompressionGroups
import FragmentMemory.ConsolidationIsolation
import FragmentMemory.ConsolidationQueue
import FragmentMemory.ContextBuilder
import FragmentMemory.ContradictionResolution
import FragmentMemory.CredentialSessions
import FragmentMemory.CycleCheck
import FragmentMemory.DeadSessions
import FragmentMemory.DecayRuns
import FragmentMemory.DedupGate
import FragmentMemory.DetectionCoverage
import FragmentMemory.DispatchChain
import FragmentMemory.EmbeddingFreshness
import FragmentMemory.GrantChains
import FragmentMemory.HotCache
import FragmentMemory.IncidentCases
import FragmentMemory.IndexFollowsRow
import FragmentMemory.InsertPaths
import FragmentMemory.JobRetention
import FragmentMemory.KeywordLookup
import FragmentMemory.LinkWeights
import FragmentMemory.LinkedFragments
import FragmentMemory.MergeConservation
import FragmentMemory.MessageFrames
import FragmentMemory.NearbyContext
import FragmentMemory.OAuthStores
import FragmentMemory.OpenErrors
import FragmentMemory.ParsedAnswers
import FragmentMemory.QuotaMargin
import FragmentMemory.QuotaTransactions
import FragmentMemory.RateLimits
import FragmentMemory.RecallSet
import FragmentMemory.ReconsolidationRuns
import FragmentMemory.RedactedWrites
import FragmentMemory.RepeatedRemember
import FragmentMemory.RerankedBest
import FragmentMemory.Reranker
import FragmentMemory.ScriptSegments
import FragmentMemory.SearchParamAdaptor
import FragmentMemory.SessionLinks
import FragmentMemory.SingleUse
import FragmentMemory.SplitKeepsText
import FragmentMemory.SplitOutcome
import FragmentMemory.SpreadingActivation
import FragmentMemory.SteadyRecalls
import FragmentMemory.Survivors
import FragmentMemory.TenantTokenScope
import FragmentMemory.TopicDeletion
