import Crystalline.Frontmatter.MergeSymmetric
import Crystalline.Threads.History
import Crystalline.Links.Moved
import Crystalline.Remote.CleanupSafe
import Crystalline.Remote.UpstreamReadings
import Crystalline.Remote.Interrupted
import Crystalline.Remote.RebaseSafe
import Crystalline.Remote.StackedShares
import Crystalline.Remote.RevertSound
import Crystalline.Sync.Fronts
import Crystalline.Pending.Runs
import Crystalline.Rename.Pause
import Crystalline.Stdio.Framing
import Crystalline.Names.Settled
import Crystalline.Identity.OnePolicy
import Crystalline.Overlay.Runs
import Crystalline.Toon.Normal
import Crystalline.Base.Alike
import Crystalline.Reflection.CutShort
import Crystalline.Reflection.ContentIds
import Crystalline.Reflection.AssignIds
import Crystalline.Reflection.WrittenIds
import Crystalline.Reflection.Provenance
import Crystalline.Parsing.InlineCode
import Crystalline.Sync.Borrowing
import Crystalline.Rename.StateDirs
import Crystalline.Identity.LoginThrottle
import Crystalline.Sweep.Clusters
import Crystalline.Nli.BestLines
import Crystalline.Stdio.CutShort
import Crystalline.Tags.Fold
import Crystalline.Collab.Fences
import Crystalline.Collab.RowMerge
import Crystalline.Collab.Morph
import Crystalline.Frontmatter.ReplacedValue
import Crystalline.Environment.Settled
import Crystalline.Links.Permalink
import Crystalline.Links.Relative
import Crystalline.Kept.NeverLost
import Crystalline.Tables.MovedTable
import Crystalline.Tables.Prettify
