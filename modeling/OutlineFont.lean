import OutlineFont.Font
import OutlineFont.Hinting.FixedText
import OutlineFont.Proofs.Budget
import OutlineFont.Proofs.JumpFree
import OutlineFont.Proofs.StackFrame
import OutlineFont.Proofs.Inlining
import OutlineFont.Proofs.Branches
import OutlineFont.Proofs.SimpleEncoding
import OutlineFont.Proofs.Histories
import OutlineFont.Proofs.HintedOutline
import OutlineFont.Proofs.HintingPolicies
import OutlineFont.Proofs.ComponentResolution
import OutlineFont.Proofs.CompositeDecoding
import OutlineFont.Proofs.PointBounds
import OutlineFont.Proofs.ReferenceBounds
import OutlineFont.Proofs.ScaledLengths
import OutlineFont.Proofs.ScanLines
import OutlineFont.Proofs.InstructionCoding
import OutlineFont.Proofs.SubtableSelection
import OutlineFont.Proofs.DirectoryLayout
import OutlineFont.Proofs.GroupLookup
import OutlineFont.Proofs.RelocatedFonts
import OutlineFont.Proofs.EndPoints
import OutlineFont.Proofs.InstructionControl
import OutlineFont.Proofs.UnusedPlatforms
import OutlineFont.Proofs.Drawing
import OutlineFont.Proofs.ComparedDoubles
import OutlineFont.Proofs.MaskCells
import OutlineFont.Proofs.Rectangles
import OutlineFont.Proofs.DeltaExceptions
import OutlineFont.Proofs.CellGrid
import OutlineFont.Proofs.MaskGeometry
import OutlineFont.Proofs.CrossingWindows
import OutlineFont.Proofs.ClosedPolygons
import OutlineFont.Proofs.RecordLengths
import OutlineFont.Proofs.SegmentLookup
import OutlineFont.Proofs.SegmentCharacters
import OutlineFont.Proofs.RoundedDistances
import OutlineFont.Proofs.PixelSizes
import OutlineFont.Proofs.LocationFormats
import OutlineFont.Proofs.TranslatedContours
import OutlineFont.Proofs.MatchedBrackets
import OutlineFont.Proofs.CursorWalks
import OutlineFont.Proofs.StackRotation
