import Mdbx.ProofKit.Program
import Mdbx.ProofKit.Binary64
import Mdbx.ProofKit.Table
import Mdbx.ProofKit.Paging
import Mdbx.ProofKit.FileTree
import Mdbx.ProofKit.Within
import Mdbx.ProofKit.SideBySide
import Mdbx.ProofKit.Masks
import Mdbx.ProofKit.Utf8
import Mdbx.Frame
import Mdbx.Status
import Mdbx.Native
import Mdbx.Handles
import Mdbx.GuardStack
import Mdbx.Flags
import Mdbx.Vocabulary
import Mdbx.Lifecycle
import Mdbx.Data
import Mdbx.Command
import Mdbx.Front
import Mdbx.Trace
import Mdbx.Invariant
import Mdbx.Updates
import Mdbx.Execution
import Mdbx.Soundness
import Mdbx.Teardown
import Mdbx.Entry
import Mdbx.Conservation
import Mdbx.Finalizers
import Mdbx.Terminal
import Mdbx.Recovery
import Mdbx.States
import Mdbx.Openings
import Mdbx.Resolving
import Mdbx.Scan
import Mdbx.Listing
import Mdbx.Paging
import Mdbx.EnvKey
import Mdbx.Confinement
import Mdbx.Cache
import Mdbx.Counting
import Mdbx.Text
import Mdbx.Sizes
import Mdbx.Addressing
import Mdbx.DbArgument
import Mdbx.Custody
import Mdbx.Upkeep
import Mdbx.Protection
import Mdbx.Inheritance
import Mdbx.MainRecords
import Mdbx.Transparency
import Mdbx.Stores
import Mdbx.Sequences
import Mdbx.Brackets
import Mdbx.Atomicity
