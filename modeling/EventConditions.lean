import EventConditions.Config.File
import EventConditions.Pipeline
import EventConditions.Proofs.Graph.Pruning
import EventConditions.Proofs.Graph.Representation
import EventConditions.Proofs.Pipeline.Acceptance
import EventConditions.Proofs.Pipeline.Meaning
import EventConditions.Proofs.Graph.Slicing
import EventConditions.Proofs.Graph.Signals
import EventConditions.Proofs.Pipeline.Soundness
import EventConditions.Proofs.Pipeline.Signals
import EventConditions.Proofs.Graph.Answers
import EventConditions.Proofs.Pipeline.Answers
import EventConditions.Proofs.Graph.Embedding
import EventConditions.Proofs.Pipeline.Extension
import EventConditions.Proofs.MessagePack.Members
import EventConditions.Proofs.MessagePack.RoundTrip
import EventConditions.Proofs.Config.Storage
import EventConditions.Proofs.Graph.Query
import EventConditions.Proofs.Graph.Report
import EventConditions.Proofs.Pipeline.Safety
import EventConditions.Proofs.Simple.Limit
import EventConditions.Proofs.Graph.Holdings
import EventConditions.Proofs.Graph.Boards
import EventConditions.Proofs.Graph.Blame
import EventConditions.Proofs.Resolution.Attempts
import EventConditions.Proofs.Graph.Afresh
import EventConditions.Proofs.Graph.Dependence
import EventConditions.Proofs.Pipeline.Knowledge
import EventConditions.Proofs.Pipeline.Report
import EventConditions.Proofs.Pipeline.Requests
import EventConditions.Proofs.Operator.Laws
import EventConditions.Proofs.Simple.Projection
import EventConditions.Proofs.Text.Quoted
import EventConditions.Proofs.Key.Text
import EventConditions.Proofs.MessagePack.Arrangement
import EventConditions.Proofs.Config.Layout
