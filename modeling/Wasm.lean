import Wasm.Binary.Writer
import Wasm.Host.Summary
import Wasm.Main
import Wasm.Proofs.Encoding.RoundTrip
import Wasm.Proofs.Errors.Taxonomy
import Wasm.Proofs.Framing.Trees
import Wasm.Proofs.Growth.Bounds
import Wasm.Proofs.Host.Signature
import Wasm.Proofs.Ieee.Lattice
import Wasm.Proofs.Instantiation.IndexSpaces
import Wasm.Proofs.Isolation.Encapsulation
import Wasm.Proofs.Lockstep.DeadCode
import Wasm.Proofs.Lockstep.Limits
import Wasm.Proofs.Memory.Operations
import Wasm.Proofs.Numeric.Instructions
import Wasm.Proofs.Numeric.Truncation
import Wasm.Proofs.Recording.Heights
import Wasm.Proofs.Recording.Progress
import Wasm.Proofs.Safety.Coherence
import Wasm.Proofs.Safety.Exclusion
import Wasm.Proofs.Structured.CallPaths
import Wasm.Proofs.Typing.Immediates
import Wasm.Proofs.Varint.Canonical
import Wasm.Session
