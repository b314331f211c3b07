import StaticSite.Main
import StaticSite.Proofs.Isolation
import StaticSite.Proofs.Templates
import StaticSite.Proofs.Repeats
import StaticSite.Proofs.CallChain
import StaticSite.Proofs.Monotonicity
import StaticSite.Proofs.Cleaning
import StaticSite.Proofs.Writing
import StaticSite.Proofs.Confinement
import StaticSite.Proofs.Copying
import StaticSite.Proofs.Looks
import StaticSite.Proofs.Placing
import StaticSite.Proofs.Reading
import StaticSite.Proofs.Attempts
import StaticSite.Proofs.Targets
import StaticSite.Proofs.PageOrder
import StaticSite.Proofs.Rebuilding
import StaticSite.Proofs.SecondPass
import StaticSite.Proofs.Escaping
import StaticSite.Proofs.Decoding
import StaticSite.Proofs.Grammar
import StaticSite.Proofs.Sessions
import StaticSite.Proofs.Consumed
import StaticSite.Proofs.Earliest
import StaticSite.Proofs.Embedding
import StaticSite.Proofs.LeastFile
import StaticSite.Proofs.Mirroring
