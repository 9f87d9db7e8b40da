import SourceSwitch.Main
import SourceSwitch.Proofs.Block.Accounting
import SourceSwitch.Proofs.Block.Checked
import SourceSwitch.Proofs.Block.Indentation
import SourceSwitch.Proofs.Block.Inertness
import SourceSwitch.Proofs.Block.Location
import SourceSwitch.Proofs.Block.Template
import SourceSwitch.Proofs.Bracket.Invariance
import SourceSwitch.Proofs.Bracket.Segments
import SourceSwitch.Proofs.Bracket.Template
import SourceSwitch.Proofs.ModuleSource.Survival
import SourceSwitch.Proofs.Registry.Host
import SourceSwitch.Proofs.Registry.Selection
import SourceSwitch.Proofs.Registry.Tokens
import SourceSwitch.Proofs.Rewrite.Atomicity
import SourceSwitch.Proofs.Rewrite.Checked
import SourceSwitch.Proofs.Rewrite.Climbing
import SourceSwitch.Proofs.Rewrite.Concatenation
import SourceSwitch.Proofs.Rewrite.Discovery
import SourceSwitch.Proofs.Rewrite.Endings
import SourceSwitch.Proofs.Rewrite.Frame
import SourceSwitch.Proofs.Rewrite.Idempotence
import SourceSwitch.Proofs.Rewrite.Ownership
import SourceSwitch.Proofs.Rewrite.Refresh
import SourceSwitch.Proofs.Rewrite.ThereAndBack
import SourceSwitch.Proofs.Version.Grammar
