import EmvaultPkcs11.Backend
import EmvaultPkcs11.Bitcoin
import EmvaultPkcs11.Ceremony
import EmvaultPkcs11.CeremonyFailure
import EmvaultPkcs11.CeremonyReload
import EmvaultPkcs11.ChildIndex
import EmvaultPkcs11.CoreSigner
import EmvaultPkcs11.CrateConduct
import EmvaultPkcs11.CrateIsolation
import EmvaultPkcs11.DerOctetString
import EmvaultPkcs11.DescriptorKeys
import EmvaultPkcs11.EcPointForms
import EmvaultPkcs11.Elements
import EmvaultPkcs11.Error
import EmvaultPkcs11.Fleet
import EmvaultPkcs11.FleetConfig
import EmvaultPkcs11.FleetEnvironment
import EmvaultPkcs11.FleetIndependence
import EmvaultPkcs11.FleetKeys
import EmvaultPkcs11.FleetValidation
import EmvaultPkcs11.FleetVariables
import EmvaultPkcs11.FleetWriting
import EmvaultPkcs11.HexDecoding
import EmvaultPkcs11.IdealVendor
import EmvaultPkcs11.KeyHistory
import EmvaultPkcs11.KeyOps
import EmvaultPkcs11.KeyRemoval
import EmvaultPkcs11.LibraryAgenda
import EmvaultPkcs11.LibraryCalls
import EmvaultPkcs11.LibraryEcdsa
import EmvaultPkcs11.LibraryEffect
import EmvaultPkcs11.LibraryFootprint
import EmvaultPkcs11.LibraryGuard
import EmvaultPkcs11.LibraryKeyTree
import EmvaultPkcs11.LibraryLucas
import EmvaultPkcs11.LibraryNumerals
import EmvaultPkcs11.LibraryPool
import EmvaultPkcs11.LibraryProgram
import EmvaultPkcs11.LibraryPublicTree
import EmvaultPkcs11.LibraryRace
import EmvaultPkcs11.LibraryRegister
import EmvaultPkcs11.LibrarySearch
import EmvaultPkcs11.LibrarySolo
import EmvaultPkcs11.LibraryWindow
import EmvaultPkcs11.LibraryWrites
import EmvaultPkcs11.ParallelJobs
import EmvaultPkcs11.ParallelSessions
import EmvaultPkcs11.ParallelSigning
import EmvaultPkcs11.PathText
import EmvaultPkcs11.Policy
import EmvaultPkcs11.PolicyExactness
import EmvaultPkcs11.PolicyReplacement
import EmvaultPkcs11.PolicyRules
import EmvaultPkcs11.PolicyStore
import EmvaultPkcs11.Psbt
import EmvaultPkcs11.PsetDecision
import EmvaultPkcs11.RateCounter
import EmvaultPkcs11.RateInterleaving
import EmvaultPkcs11.RecordContest
import EmvaultPkcs11.RecordHistory
import EmvaultPkcs11.RecordRace
import EmvaultPkcs11.Secp256k1
import EmvaultPkcs11.SeedRequest
import EmvaultPkcs11.SessionKeys
import EmvaultPkcs11.SessionPrograms
import EmvaultPkcs11.Sighash
import EmvaultPkcs11.SighashReuse
import EmvaultPkcs11.SignatureEntries
import EmvaultPkcs11.SignatureValidity
import EmvaultPkcs11.Signer
import EmvaultPkcs11.SignerLifetime
import EmvaultPkcs11.SignerRuns
import EmvaultPkcs11.SignerVault
import EmvaultPkcs11.SigningAgenda
import EmvaultPkcs11.SigningCall
import EmvaultPkcs11.SigningCleanup
import EmvaultPkcs11.SigningCompleteness
import EmvaultPkcs11.SigningFailure
import EmvaultPkcs11.SigningFrame
import EmvaultPkcs11.SigningGate
import EmvaultPkcs11.SigningKey
import EmvaultPkcs11.SigningOrder
import EmvaultPkcs11.SigningOutcome
import EmvaultPkcs11.SigningProgram
import EmvaultPkcs11.SigningRate
import EmvaultPkcs11.SigningRun
import EmvaultPkcs11.SigningStop
import EmvaultPkcs11.SigningTargets
import EmvaultPkcs11.SigningUnlimited
import EmvaultPkcs11.SigrateHistory
import EmvaultPkcs11.SlotOrder
import EmvaultPkcs11.SlotSession
import EmvaultPkcs11.Token
import EmvaultPkcs11.TokenConduct
import EmvaultPkcs11.TokenFrame
import EmvaultPkcs11.TokenReaders
import EmvaultPkcs11.VendorBehaviour
import EmvaultPkcs11.XpubReading
