import DeferredStyle.Main
import DeferredStyle.Proofs.Attributes
import DeferredStyle.Proofs.Blame
import DeferredStyle.Proofs.ClassLists
import DeferredStyle.Proofs.Configurations
import DeferredStyle.Proofs.Defaults
import DeferredStyle.Proofs.Equality
import DeferredStyle.Proofs.Erasure
import DeferredStyle.Proofs.Folding
import DeferredStyle.Proofs.Grammar
import DeferredStyle.Proofs.Hexadecimal
import DeferredStyle.Proofs.Image
import DeferredStyle.Proofs.Independence
import DeferredStyle.Proofs.Introductions
import DeferredStyle.Proofs.Lenience
import DeferredStyle.Proofs.Matching
import DeferredStyle.Proofs.Numbering
import DeferredStyle.Proofs.Offences
import DeferredStyle.Proofs.Outcomes
import DeferredStyle.Proofs.Partition
import DeferredStyle.Proofs.Reordering
import DeferredStyle.Proofs.Reports
import DeferredStyle.Proofs.Rereading
import DeferredStyle.Proofs.Runs
import DeferredStyle.Proofs.Spellings
import DeferredStyle.Proofs.Upgrade
import DeferredStyle.Proofs.Versions
import DeferredStyle.Stylesheet.Events
