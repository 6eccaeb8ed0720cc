import Interop.Json.Canonical
import Interop.Main
import Interop.Proofs.AcceptedSettings
import Interop.Proofs.BatchRuns
import Interop.Proofs.ConstantReferences
import Interop.Proofs.EnumConstants
import Interop.Proofs.FieldDeprecation
import Interop.Proofs.FlattenedNames
import Interop.Proofs.ForwardDeclarations
import Interop.Proofs.ForwardedNames
import Interop.Proofs.HoistedImports
import Interop.Proofs.IndirectCalls
import Interop.Proofs.InheritanceChains
import Interop.Proofs.InitializerLists
import Interop.Proofs.ManagedNames
import Interop.Proofs.MergeLaws
import Interop.Proofs.NameResolution
import Interop.Proofs.NumberLiterals
import Interop.Proofs.PointerSizedBits
import Interop.Proofs.StoredTrees
import Interop.Proofs.SwitchSections
import Interop.Proofs.TextLiterals
import Interop.Proofs.Trampolines
import Interop.Proofs.TreeBuilding
import Interop.Proofs.UnsafeRecords
import Interop.Proofs.UnsignedArithmetic
import Interop.Proofs.Validation
import Interop.Proofs.WrittenStatements
