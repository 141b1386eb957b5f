import NnsVerified.Library.History
import NnsVerified.Kernel.Proofs.ScannerProofs
import NnsVerified.Kernel.Proofs.AccumulatorProofs
import NnsVerified.Kernel.Proofs.PredicatesProofs
import NnsVerified.Kernel.Proofs.PokeProofs
import NnsVerified.Kernel.Proofs.RunProofs
import NnsVerified.Kernel.Proofs.CauseProofs
import NnsVerified.Kernel.Sample
import NnsVerified.Kernel.Proofs.CursorProofs
import NnsVerified.Kernel.Proofs.RegistryProofs
import NnsVerified.Kernel.Proofs.AtomicityProofs
import NnsVerified.Kernel.Proofs.LivenessProofs
import NnsVerified.Kernel.Proofs.SnapshotProofs
import NnsVerified.Kernel.Proofs.ReplayProofs
import NnsVerified.Hull.Rust
import NnsVerified.Hull.Crates
import NnsVerified.Hull.Kernel
import NnsVerified.Hull.Chain
import NnsVerified.Hull.ChainFollower
import NnsVerified.Hull.Proofs.DigestProofs
import NnsVerified.Hull.Proofs.OrderProofs
import NnsVerified.Hull.Sample
import NnsVerified.Hull.Proofs.EncodingProofs
import NnsVerified.Hull.Proofs.PlanProofs
import NnsVerified.Hull.Proofs.ExtractionProofs
import NnsVerified.Kernel.Proofs.ValidatorProofs
import NnsVerified.Kernel.Proofs.ScanOrderProofs
import NnsVerified.Kernel.Proofs.TransitionProofs
import NnsVerified.Hull.FollowerRun
import NnsVerified.Hull.Proofs.FollowerProofs
import NnsVerified.Hull.Proofs.ProofChainProofs
import NnsVerified.Hull.Hex
import NnsVerified.Hull.LightVerify
import NnsVerified.Hull.Lookup
import NnsVerified.Hull.Proofs.LightVerifyProofs
import NnsVerified.Hull.Proofs.DigestWidthProofs
import NnsVerified.Hull.Proofs.HexProofs
import NnsVerified.Kernel.Proofs.ChainLinkProofs
import NnsVerified.Kernel.Proofs.GateProofs
import NnsVerified.Kernel.Proofs.SanityProofs
import NnsVerified.Hull.BatchRun
import NnsVerified.Hull.Proofs.BatchProofs
import NnsVerified.Hull.Proofs.ClaimOrderProofs
import NnsVerified.Hull.Proofs.VerdictProofs
import NnsVerified.Hull.Proofs.BlobProofs
import NnsVerified.Hull.Proofs.BuilderProofs
import NnsVerified.Hull.Proofs.ClaimNoteProofs
import NnsVerified.Hull.Proofs.HullAtomProofs
import NnsVerified.Hull.Proofs.OwnerProofs
import NnsVerified.Kernel.Parity
import NnsVerified.Kernel.Proofs.AnswerProofs
import NnsVerified.Kernel.Proofs.CacheProofs
import NnsVerified.Kernel.Proofs.DryRunProofs
import NnsVerified.Kernel.Proofs.ParityProofs
import NnsVerified.Kernel.Proofs.FreeNameProofs
import NnsVerified.Kernel.Proofs.LoweringProofs
import NnsVerified.Hull.Proofs.FormulaNockProofs
import NnsVerified.Kernel.Proofs.AxisProofs
import NnsVerified.Kernel.Proofs.ListViewProofs
import NnsVerified.Kernel.Proofs.LogProofs
import NnsVerified.Hull.Proofs.ReplicaProofs
import NnsVerified.Hull.Proofs.ConvergenceProofs
import NnsVerified.Hull.Proofs.RegistrationProofs
import NnsVerified.Kernel.Proofs.MerkleProofs
import NnsVerified.Hull.Proofs.CallProofs
import NnsVerified.Hull.Proofs.FetchProofs
import NnsVerified.Hull.Proofs.WalletProofs
import NnsVerified.Hull.Proofs.StatusCatchUpProofs
import NnsVerified.Hull.Proofs.StatusProofs
import NnsVerified.Hull.Proofs.StatusRestProofs
import NnsVerified.Hull.Proofs.StatusTraceProofs
import NnsVerified.Hull.Proofs.DebugProofs
import NnsVerified.Hull.Proofs.OracleProofs
import NnsVerified.Hull.Proofs.LookupAnswerProofs
import NnsVerified.Hull.Proofs.RestartProofs
