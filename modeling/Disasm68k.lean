import Disasm68k.Main
import Disasm68k.Operand.Family
import Disasm68k.Session
import Disasm68k.Stream
import Disasm68k.Proofs.Load
import Disasm68k.Proofs.Reading
import Disasm68k.Proofs.Catalogue
import Disasm68k.Proofs.Faults
import Disasm68k.Proofs.Tiling
import Disasm68k.Proofs.Walk
import Disasm68k.Proofs.Coverage
import Disasm68k.Proofs.Encoding
import Disasm68k.Proofs.Conformance
import Disasm68k.Proofs.Acceptance
import Disasm68k.Proofs.Provenance
import Disasm68k.Proofs.Failure
import Disasm68k.Proofs.Relocation
import Disasm68k.Proofs.Truncation
import Disasm68k.Proofs.Significance
import Disasm68k.Proofs.Isolation
import Disasm68k.Proofs.Regions
import Disasm68k.Proofs.Stencil
import Disasm68k.Proofs.Precedence
import Disasm68k.Proofs.Refusals
import Disasm68k.Proofs.Lines
import Disasm68k.Proofs.Paging
import Disasm68k.Proofs.Splitting
import Disasm68k.Proofs.Transcript
import Disasm68k.Proofs.ByteOrder
import Disasm68k.Proofs.Hexadecimal
import Disasm68k.Proofs.Overrides
import Disasm68k.Proofs.Stores
import Disasm68k.Proofs.Classification
import Disasm68k.Proofs.Printing
import Disasm68k.Proofs.Resolution
import Disasm68k.Proofs.Measure
import Disasm68k.Proofs.Ranges
import Disasm68k.Proofs.Decimal
import Disasm68k.Proofs.RegisterNames
import Disasm68k.Proofs.Grammar
import Disasm68k.Proofs.Ambiguity
import Disasm68k.Proofs.Coherence
import Disasm68k.Proofs.Recording
import Disasm68k.Proofs.LowWord
import Disasm68k.Proofs.TwosComplement
import Disasm68k.Proofs.RegisterLists
import Disasm68k.Proofs.TokenIdentity
import Disasm68k.Proofs.Writable
import Disasm68k.Proofs.Writable
