import SimControl.FileSystem.Tree
import SimControl.Forwarding
import SimControl.Main
import SimControl.Proofs.Composed
import SimControl.Proofs.Extent
import SimControl.Proofs.Alike
import SimControl.Proofs.Closed
import SimControl.Proofs.Segments
import SimControl.Proofs.Groups
import SimControl.Proofs.Sections
import SimControl.Proofs.CommandLine
import SimControl.Proofs.Accountable
import SimControl.Proofs.Yielding
import SimControl.Proofs.Blame
import SimControl.Proofs.Relocated
import SimControl.Proofs.Reworded
import SimControl.Proofs.Separators
import SimControl.Proofs.Commuting
import SimControl.Proofs.Ensures
import SimControl.Proofs.WellFormed
import SimControl.Proofs.Bags
import SimControl.Proofs.Forwarded
import SimControl.Proofs.Reported
import SimControl.Proofs.Nearby
import SimControl.Proofs.Reached
import SimControl.Proofs.OptionOrder
import SimControl.Proofs.Committed
import SimControl.Proofs.Narrowed
import SimControl.Proofs.Flags
import SimControl.Proofs.HelpLine
import SimControl.Proofs.Launched
import SimControl.Proofs.Rounds
import SimControl.Proofs.Endless
import SimControl.Proofs.Shortfall
import SimControl.Proofs.Folded
import SimControl.Proofs.Ranked
import SimControl.Proofs.Interleaved
import SimControl.Proofs.Restated
import SimControl.Proofs.Minimum
import SimControl.Proofs.Regrouped
import SimControl.Proofs.Preferred
import SimControl.Proofs.Monoids
import SimControl.Proofs.Layered
import SimControl.Proofs.PropertyList
import SimControl.Proofs.Hyphenated
import SimControl.Proofs.Wrapped
import SimControl.Proofs.Caret
import SimControl.Proofs.Announced
import SimControl.Proofs.Shapes
import SimControl.Proofs.Canonical
