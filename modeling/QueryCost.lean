import QueryCost.Main
import QueryCost.Proofs.Analysis.Ceilings
import QueryCost.Proofs.Analysis.Sites
import QueryCost.Proofs.Double.Rounding
import QueryCost.Proofs.Ledger
import QueryCost.Proofs.Verdict
import QueryCost.Session
import QueryCost.Proofs.Double.Packing
import QueryCost.Proofs.Double.Order
import QueryCost.Proofs.Double.Arithmetic
import QueryCost.Proofs.Analysis.Total
import QueryCost.Proofs.Decimal.Strict
import QueryCost.Proofs.Json.Spelling
import QueryCost.Proofs.Json.Reading
import QueryCost.Proofs.Text.Utf8
import QueryCost.Proofs.Request.Grammar
import QueryCost.Proofs.Request.Batch
import QueryCost.Proofs.Json.Writing
import QueryCost.Proofs.Request.RoundTrip
import QueryCost.Proofs.GraphQL.Spelling
import QueryCost.Proofs.GraphQL.Reading
import QueryCost.Proofs.GraphQL.Writing
import QueryCost.Proofs.GraphQL.Parsing
import QueryCost.Proofs.Analysis.Admission
import QueryCost.Proofs.Analysis.Frame
import QueryCost.Proofs.Analysis.Skeleton
import QueryCost.Proofs.Decimal.Spelled
import QueryCost.Proofs.Json.Rendering
import QueryCost.Proofs.Config.RoundTrip
import QueryCost.Proofs.Config.Respelling
import QueryCost.Proofs.CommandLine.Answers
import QueryCost.Proofs.Json.Members
import QueryCost.Proofs.Json.Numbers
import QueryCost.Proofs.Double.Units
import QueryCost.Proofs.GraphQL.Nesting
import QueryCost.Proofs.Analysis.RoundTrip
import QueryCost.Proofs.Response
import QueryCost.Proofs.Session
import QueryCost.Proofs.CommandLine.Blocking
import QueryCost.Proofs.Analysis.Reordering
import QueryCost.Proofs.Analysis.Override
import QueryCost.Proofs.Analysis.Names
import QueryCost.Proofs.Decimal.Range
import QueryCost.Proofs.Rereading
