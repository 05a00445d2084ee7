import ClassEngine.Archive.Crc32
import ClassEngine.Archive.Huffman
import ClassEngine.Archive.Inflate
import ClassEngine.Archive.Zip
import ClassEngine.Assembly.Assembler
import ClassEngine.Assembly.Source
import ClassEngine.Bundle.File
import ClassEngine.Bundle.Format
import ClassEngine.Bytecode.ClassListing
import ClassEngine.Bytecode.Length
import ClassEngine.Bytecode.Listing
import ClassEngine.Bytecode.Opcode
import ClassEngine.Cbor.Decode
import ClassEngine.Cbor.Item
import ClassEngine.Cbor.Reader
import ClassEngine.ClassFile.Basic
import ClassEngine.ClassFile.Builder
import ClassEngine.ClassFile.Decoder
import ClassEngine.ClassFile.Encoder
import ClassEngine.ClassFile.Pool
import ClassEngine.ClassPath.Basic
import ClassEngine.ClassPath.Source
import ClassEngine.CommandLine.Flags
import ClassEngine.CommandLine.Reads
import ClassEngine.CommandLine.Run
import ClassEngine.Decimal.Layout
import ClassEngine.Decimal.Shortest
import ClassEngine.Descriptor.Basic
import ClassEngine.Descriptor.Signature
import ClassEngine.Engine.Allocation
import ClassEngine.Engine.Arrays
import ClassEngine.Engine.Display
import ClassEngine.Engine.Error
import ClassEngine.Engine.Frame
import ClassEngine.Engine.History
import ClassEngine.Engine.Initialization
import ClassEngine.Engine.Instruction.Arithmetic
import ClassEngine.Engine.Instruction.Control
import ClassEngine.Engine.Instruction.Reference
import ClassEngine.Engine.Instruction.Stack
import ClassEngine.Engine.Interpreter
import ClassEngine.Engine.Linking
import ClassEngine.Engine.Machine
import ClassEngine.Engine.Native.Builtin
import ClassEngine.Engine.Native.Call
import ClassEngine.Engine.Native.Standard
import ClassEngine.Engine.NativeTable
import ClassEngine.Engine.Object
import ClassEngine.Engine.Profiler
import ClassEngine.Engine.Resolution
import ClassEngine.Engine.RuntimeClass
import ClassEngine.Engine.Session
import ClassEngine.Engine.Step
import ClassEngine.Engine.Trace
import ClassEngine.Engine.Value
import ClassEngine.Engine.View
import ClassEngine.Failure
import ClassEngine.FileTree.Basic
import ClassEngine.FileTree.Path
import ClassEngine.Library.Basic
import ClassEngine.Library.Bootstrap
import ClassEngine.Library.Lang
import ClassEngine.Library.Throwable
import ClassEngine.Main
import ClassEngine.Manifest.Basic
import ClassEngine.Manifest.Dependencies
import ClassEngine.Manifest.Load
import ClassEngine.Numeric.Ieee
import ClassEngine.Numeric.Power
import ClassEngine.Proofs.Assembly.Branches
import ClassEngine.Proofs.Assembly.ControlFlow
import ClassEngine.Proofs.Assembly.Gaps
import ClassEngine.Proofs.Assembly.InternedNumbers
import ClassEngine.Proofs.Assembly.Layout
import ClassEngine.Proofs.Assembly.Pools
import ClassEngine.Proofs.Assembly.SignedZeros
import ClassEngine.Proofs.Assembly.Sources
import ClassEngine.Proofs.Assembly.ValueLines
import ClassEngine.Proofs.Bundle.Arrangement
import ClassEngine.Proofs.Bundle.Constants
import ClassEngine.Proofs.Bundle.Decoded
import ClassEngine.Proofs.Bundle.Format
import ClassEngine.Proofs.Bundle.RoundTrip
import ClassEngine.Proofs.Bytecode.Listings
import ClassEngine.Proofs.Cbor.Records
import ClassEngine.Proofs.Cbor.RoundTrip
import ClassEngine.Proofs.ClassFile.Building
import ClassEngine.Proofs.ClassFile.Interning
import ClassEngine.Proofs.ClassFile.Members
import ClassEngine.Proofs.ClassFile.Narrowing
import ClassEngine.Proofs.ClassFile.PoolRoundTrip
import ClassEngine.Proofs.ClassFile.Reading
import ClassEngine.Proofs.ClassFile.Reencoding
import ClassEngine.Proofs.ClassFile.RoundTrip
import ClassEngine.Proofs.ClassFile.SelfContained
import ClassEngine.Proofs.ClassFile.Truncation
import ClassEngine.Proofs.ClassPath.Collection
import ClassEngine.Proofs.Descriptor.Grammar
import ClassEngine.Proofs.Engine.Allocation
import ClassEngine.Proofs.Engine.ArrayCopies
import ClassEngine.Proofs.Engine.ArrayElements
import ClassEngine.Proofs.Engine.ArrayTrees
import ClassEngine.Proofs.Engine.ArrayWrites
import ClassEngine.Proofs.Engine.Assignability
import ClassEngine.Proofs.Engine.BuiltClasses
import ClassEngine.Proofs.Engine.CallChain
import ClassEngine.Proofs.Engine.CallConvention
import ClassEngine.Proofs.Engine.Canonical
import ClassEngine.Proofs.Engine.CanonicalStrings
import ClassEngine.Proofs.Engine.ClassNames
import ClassEngine.Proofs.Engine.ClassTable
import ClassEngine.Proofs.Engine.Coherence
import ClassEngine.Proofs.Engine.Computations
import ClassEngine.Proofs.Engine.Evolution
import ClassEngine.Proofs.Engine.Exceptions
import ClassEngine.Proofs.Engine.FatalErrors
import ClassEngine.Proofs.Engine.FieldAccesses
import ClassEngine.Proofs.Engine.FieldStorage
import ClassEngine.Proofs.Engine.Frames
import ClassEngine.Proofs.Engine.Initialization
import ClassEngine.Proofs.Engine.Instances
import ClassEngine.Proofs.Engine.InstructionSizes
import ClassEngine.Proofs.Engine.Instructions
import ClassEngine.Proofs.Engine.IntegerArithmetic
import ClassEngine.Proofs.Engine.InterfaceCycles
import ClassEngine.Proofs.Engine.Invariant
import ClassEngine.Proofs.Engine.Lifecycle
import ClassEngine.Proofs.Engine.Linking
import ClassEngine.Proofs.Engine.LoadedConstants
import ClassEngine.Proofs.Engine.LocalsLayout
import ClassEngine.Proofs.Engine.MemberSearch
import ClassEngine.Proofs.Engine.Moments
import ClassEngine.Proofs.Engine.NarrowResults
import ClassEngine.Proofs.Engine.Natives
import ClassEngine.Proofs.Engine.Profiling
import ClassEngine.Proofs.Engine.Reporting
import ClassEngine.Proofs.Engine.Requests
import ClassEngine.Proofs.Engine.Resolution
import ClassEngine.Proofs.Engine.ResolutionCache
import ClassEngine.Proofs.Engine.Respecting
import ClassEngine.Proofs.Engine.RespectingExecution
import ClassEngine.Proofs.Engine.Running
import ClassEngine.Proofs.Engine.Soundness
import ClassEngine.Proofs.Engine.SpecialCalls
import ClassEngine.Proofs.Engine.StackWords
import ClassEngine.Proofs.Engine.StraightLines
import ClassEngine.Proofs.Engine.StringClasses
import ClassEngine.Proofs.Engine.Strings
import ClassEngine.Proofs.Engine.SubtypeTest
import ClassEngine.Proofs.Engine.Subtyping
import ClassEngine.Proofs.Engine.Surfacing
import ClassEngine.Proofs.Engine.Throwing
import ClassEngine.Proofs.Engine.UnitCopies
import ClassEngine.Proofs.FileTree.Places
import ClassEngine.Proofs.Manifest.Dependencies
import ClassEngine.Proofs.Manifest.Loading
import ClassEngine.Proofs.Manifest.Traversal
import ClassEngine.Proofs.Numeric.Widening
import ClassEngine.Proofs.Numeric.Words
import ClassEngine.Proofs.Text.Order
import ClassEngine.Proofs.Text.Transcoding
import ClassEngine.Text.Basic
import ClassEngine.Text.Blank
import ClassEngine.Text.Case
import ClassEngine.Text.Digits
import ClassEngine.Text.Integer
import ClassEngine.Text.ModifiedUtf8
import ClassEngine.Text.Printable
import ClassEngine.Text.Quoted
import ClassEngine.Text.Uppercase
import ClassEngine.Text.Utf16
import ClassEngine.Text.Utf8
import ClassEngine.Toml.Document
import ClassEngine.Toml.Scalar
import ClassEngine.Toml.Syntax
import ClassEngine.Toml.Value
