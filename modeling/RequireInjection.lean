import RequireInjection.Main
import RequireInjection.Json.Printer
import RequireInjection.Proofs.ContextCall.Key
import RequireInjection.Proofs.Wrapping.Balance
import RequireInjection.Proofs.Wrapping.LoadingCalls
import RequireInjection.Proofs.Injection.ContextMark
import RequireInjection.Proofs.Injection.StatementBoundary
import RequireInjection.Proofs.Injection.Faults
import RequireInjection.Proofs.CallPattern.Candidate
import RequireInjection.Proofs.FilterSet.PlainQuery
import RequireInjection.Proofs.FilterSet.EncodedQuery
import RequireInjection.Proofs.Config.FilterDocument
import RequireInjection.Proofs.Run.Outcome
import RequireInjection.Proofs.Run.Alone
import RequireInjection.Proofs.CallPattern.LargerExclusion
import RequireInjection.Proofs.Edit.Acceptance
import RequireInjection.Proofs.Wrapping.Removal
import RequireInjection.Proofs.CallPattern.QuotedCall
import RequireInjection.Proofs.Wrapping.Locality
import RequireInjection.Proofs.Wrapping.Stages
import RequireInjection.Proofs.FilterSet.Rejection
import RequireInjection.Proofs.ContextCall.Collection
import RequireInjection.Proofs.Edit.Words
import RequireInjection.Proofs.Run.Collection
