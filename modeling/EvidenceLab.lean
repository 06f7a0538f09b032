import EvidenceLab.Api.Errors
import EvidenceLab.Evaluation.Audit
import EvidenceLab.Evaluation.Gaps
import EvidenceLab.Evaluation.OneStory
import EvidenceLab.Evaluation.Reports
import EvidenceLab.Evaluation.RunLifecycle
import EvidenceLab.Ingest.Advance
import EvidenceLab.Ingest.ChunkStore
import EvidenceLab.Ingest.Damage
import EvidenceLab.Ingest.Payments
import EvidenceLab.Ingest.Phrases
import EvidenceLab.Ingest.Provenance
import EvidenceLab.Ingest.Reproducible
import EvidenceLab.Ingest.Spacing
import EvidenceLab.Ingest.Storable
import EvidenceLab.Ingest.Uploads
import EvidenceLab.Logging.Redaction
import EvidenceLab.Providers.Accepted
import EvidenceLab.Reasoning.Malformed
import EvidenceLab.Reasoning.Prompt
import EvidenceLab.Reasoning.TracedRuns
import EvidenceLab.Retrieval.FusionSpec
import EvidenceLab.Retrieval.Monotone
import EvidenceLab.Routing.Comparisons
import EvidenceLab.Routing.Identifiers
import EvidenceLab.Storage.Delivery
import EvidenceLab.Tenancy.Audit
import EvidenceLab.Tenancy.Drawn
import EvidenceLab.Tenancy.Explained
import EvidenceLab.Tenancy.Isolation
import EvidenceLab.Tenancy.Purge
import EvidenceLab.Tenancy.Records
import EvidenceLab.Tenancy.RowOrder
import EvidenceLab.Tenancy.Verbatim
import EvidenceLab.Tracing.Raising
import EvidenceLab.Visualization.Depth
import EvidenceLab.Visualization.HeatmapMatrix
import EvidenceLab.Visualization.Removal
import EvidenceLab.Visualization.StoredHeatmap
import EvidenceLab.Visualization.Support
import EvidenceLab.Workers.Custody
