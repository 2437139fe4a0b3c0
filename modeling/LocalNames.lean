import LocalNames.Listing.Render
import LocalNames.Main
import LocalNames.Proofs.ByLine
import LocalNames.Proofs.Encoding
import LocalNames.Proofs.Lineage
import LocalNames.Proofs.Lookup
import LocalNames.Proofs.RoundTrip
import LocalNames.Proofs.Scope
import LocalNames.Proofs.Marks
import LocalNames.Proofs.ParameterNames
import LocalNames.Proofs.Service
import LocalNames.Proofs.SideBySide
import LocalNames.Proofs.Agreement
import LocalNames.Proofs.Intact
import LocalNames.Proofs.LineOrder
import LocalNames.Proofs.FamilyLeaves
import LocalNames.Proofs.ErrorPlaces
import LocalNames.Proofs.Identifiers
import LocalNames.Proofs.OneFamily
import LocalNames.Proofs.Batches
import LocalNames.Proofs.Expected
import LocalNames.Proofs.WrittenTypes
import LocalNames.Proofs.Coverage
