import HelloExtensions.Catalogue
import HelloExtensions.Decoder.Pool
import HelloExtensions.Proofs.Acceptance
import HelloExtensions.Proofs.ListContents
import HelloExtensions.Proofs.Projection
import HelloExtensions.Proofs.Reencoding
import HelloExtensions.Proofs.RegionGrammar
import HelloExtensions.Proofs.RoundTrip
import HelloExtensions.Proofs.Standalone
import HelloExtensions.Proofs.Settings.Trees
import HelloExtensions.Proofs.Settings.Merging
import HelloExtensions.Proofs.Settings.Composition
import HelloExtensions.Proofs.Settings.Accepted
import HelloExtensions.Proofs.Service
import HelloExtensions.Proofs.Independence
import HelloExtensions.Proofs.Transcripts
import HelloExtensions.Proofs.Settings.Paths
import HelloExtensions.Proofs.Settings.Places
import HelloExtensions.Proofs.Settings.Grafting
import HelloExtensions.Proofs.Settings.Growth
import HelloExtensions.Proofs.Settings.Charts
import HelloExtensions.Proofs.Settings.Sharing
import HelloExtensions.Proofs.Rejection
import HelloExtensions.Proofs.Summaries
import HelloExtensions.Proofs.PayloadCarriers
import HelloExtensions.Proofs.ExpectedType
import HelloExtensions.Proofs.Versions
import HelloExtensions.Proofs.HexDump
import HelloExtensions.Proofs.Settings.Checking
import HelloExtensions.Proofs.Designation
