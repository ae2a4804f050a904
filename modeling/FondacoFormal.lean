import FondacoFormal.Admin.Etags
import FondacoFormal.Auth.Revocation
import FondacoFormal.Convergence.Bootstrap
import FondacoFormal.Convergence.Mesh
import FondacoFormal.Formats.ComposerRoots
import FondacoFormal.Formats.Helm
import FondacoFormal.Formats.MavenOrder
import FondacoFormal.Formats.MavenSnapshots
import FondacoFormal.Formats.Minified
import FondacoFormal.Formats.NpmMerge
import FondacoFormal.Formats.NugetVersions
import FondacoFormal.Formats.OciGrammar
import FondacoFormal.Formats.OciMount
import FondacoFormal.Formats.OciSessions
import FondacoFormal.Formats.OciStaging
import FondacoFormal.Pipeline.Breaker
import FondacoFormal.Pipeline.Collection
import FondacoFormal.Pipeline.Quiescence
import FondacoFormal.Pipeline.Repair
import FondacoFormal.Pipeline.UpstreamTokens
import FondacoFormal.Safety.AckedPruning
import FondacoFormal.Safety.Durability
import FondacoFormal.Safety.ParkedRetry
import FondacoFormal.Safety.RowProvenance
import FondacoFormal.Safety.SkewGuard
import FondacoFormal.Safety.TerminalResolution
import FondacoFormal.Server.Equivalence
import FondacoFormal.Server.GroupRules
import FondacoFormal.Server.PeerRead
import FondacoFormal.Server.PublisherPatterns
import FondacoFormal.State.ClockOrder
import FondacoFormal.Storage.Digests
import FondacoFormal.Storage.Refinement
