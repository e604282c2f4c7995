import Loadout.Catalogue.Review
import Loadout.CommandLine
import Loadout.Main
import Loadout.Proofs.CeilingBound
import Loadout.Proofs.CodedMaps
import Loadout.Proofs.SearchInOrder
import Loadout.Reckoning.Exact
import Loadout.Timestamp
import Loadout.Proofs.CappedSums
import Loadout.Proofs.AcceptedRequests
import Loadout.Proofs.CatalogueHandles
import Loadout.Proofs.PackedSlots
import Loadout.Proofs.SignatureFronts
import Loadout.Proofs.GrantedSignatures
import Loadout.Proofs.AssembledSets
import Loadout.Proofs.ParetoSets
import Loadout.Proofs.OverlappingVisits
import Loadout.Proofs.ReportedBuilds
import Loadout.Proofs.WornGear
import Loadout.Proofs.BuildAccounts
import Loadout.Proofs.FittingDecorations
import Loadout.Proofs.Recomputation
import Loadout.Proofs.AcceptedSetups
import Loadout.Proofs.LegalBuilds
import Loadout.Proofs.SharpnessOrder
import Loadout.Proofs.RaisedLevels
import Loadout.Proofs.DominatedWeapons
import Loadout.Proofs.KeptCandidates
import Loadout.Proofs.LargerPairings
import Loadout.Proofs.PrunedWeapons
import Loadout.Proofs.CutoffSets
import Loadout.Proofs.SharedBar
import Loadout.Proofs.BestHeld
import Loadout.Proofs.LaidGroundwork
import Loadout.Proofs.AgreeingSearches
import Loadout.Proofs.EmptySearches
import Loadout.Proofs.UnreportedBuilds
import Loadout.Proofs.UndecoratedBuilds
import Loadout.Proofs.CodedAssembly
import Loadout.Proofs.ReachableSetups
import Loadout.Proofs.PackedMultisets
import Loadout.Proofs.ReorderedBuilds
import Loadout.Proofs.DominanceFronts
import Loadout.Proofs.SpentSetups
import Loadout.Proofs.PaddedSetups
import Loadout.Proofs.LoadedDecorations
import Loadout.Proofs.GuardedPreparation
import Loadout.Proofs.GuardedPacking
import Loadout.Proofs.AssignedSlots
import Loadout.Proofs.GearTotals
import Loadout.Proofs.SecretChains
import Loadout.Proofs.HandleRoundTrips
import Loadout.Proofs.AcceptedCatalogues
import Loadout.Proofs.UnreachableStages
import Loadout.Proofs.WordBounds
import Loadout.Proofs.GuardedBlades
import Loadout.Proofs.EvenBatches
import Loadout.Proofs.MergedTallies
import Loadout.Proofs.GuardedCodes
import Loadout.Proofs.DecodedSignatures
