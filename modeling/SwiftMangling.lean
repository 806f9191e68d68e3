import SwiftMangling.Arena
import SwiftMangling.Cursor
import SwiftMangling.Main
import SwiftMangling.Mangle.LoweredFunction
import SwiftMangling.Mangle.Nest
import SwiftMangling.Mangle.Specialization
import SwiftMangling.Punycode.Encode
import SwiftMangling.Proofs.Answers
import SwiftMangling.Proofs.Suffix
import SwiftMangling.Proofs.EntityRoundTrip
import SwiftMangling.Proofs.NestRoundTrip
import SwiftMangling.Proofs.EnoughBudget
import SwiftMangling.Proofs.SpecializationBlocks
import SwiftMangling.Proofs.TypeSurroundings
import SwiftMangling.Proofs.Punycode.RoundTrip
import SwiftMangling.Proofs.TextFidelity
import SwiftMangling.Proofs.CommandOrder
import SwiftMangling.Proofs.ArenaHistory
import SwiftMangling.Proofs.BoundedHeight
import SwiftMangling.Proofs.ContextRebuild
import SwiftMangling.Proofs.BoundedSize
import SwiftMangling.Proofs.ClosureSuffix
import SwiftMangling.Proofs.SignatureRoundTrip
import SwiftMangling.Proofs.LoweredRoundTrip
import SwiftMangling.Proofs.SpecializationRoundTrip
import SwiftMangling.Proofs.IdentifierRoundTrip
import SwiftMangling.Proofs.KindNames
import SwiftMangling.Proofs.WrittenTrees
import SwiftMangling.Proofs.ArenaTrees
import SwiftMangling.Proofs.CommandResolution
import SwiftMangling.Proofs.SettingsHistory
import SwiftMangling.Proofs.WrittenLines
import SwiftMangling.Proofs.BatchInput
import SwiftMangling.Proofs.Progress
import SwiftMangling.Proofs.ArchetypeNames
import SwiftMangling.Proofs.CursorHistory
