import Harvest.Main
import Harvest.Source.Cache
import Harvest.Text.Octet
import Harvest.Proofs.Fetching
import Harvest.Proofs.Observation
import Harvest.Proofs.Pagination
import Harvest.Proofs.Coverage
import Harvest.Proofs.Lifetime
import Harvest.Proofs.Circling
import Harvest.Proofs.Course
import Harvest.Proofs.Trail
import Harvest.Proofs.Account
import Harvest.Proofs.Ending
import Harvest.Proofs.Renewal
import Harvest.Proofs.Interruption
import Harvest.Proofs.Essence
import Harvest.Proofs.Relevance
import Harvest.Proofs.Kernels
import Harvest.Proofs.Shape
import Harvest.Proofs.Mixture
import Harvest.Proofs.Indifference
import Harvest.Proofs.Sharing
import Harvest.Proofs.Transparency
import Harvest.Proofs.Tidiness
import Harvest.Proofs.Cleanness
import Harvest.Proofs.Tombstone
import Harvest.Proofs.Reading
import Harvest.Proofs.Parting
import Harvest.Proofs.Envelope
import Harvest.Proofs.Blanks
import Harvest.Proofs.Growth
import Harvest.Proofs.Remarks
import Harvest.Proofs.Resolution
import Harvest.Proofs.Octets
import Harvest.Proofs.Queries
import Harvest.Proofs.Requests
import Harvest.Proofs.Calendar
import Harvest.Proofs.Prefixes
import Harvest.Proofs.Reload
import Harvest.Proofs.Spelling
import Harvest.Proofs.Citation
import Harvest.Proofs.Dating
import Harvest.Proofs.Bearings
import Harvest.Document.Decoding
import Harvest.Proofs.Parties
import Harvest.Proofs.Linkage
import Harvest.Proofs.Identifiers
import Harvest.Proofs.Lossless
import Harvest.Proofs.Places
import Harvest.Proofs.Moments
import Harvest.Proofs.Replacement
import Harvest.Proofs.Leftover
import Harvest.Proofs.Searches
