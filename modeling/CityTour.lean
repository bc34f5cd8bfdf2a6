import CityTour.Benchmark.Zdt1
import CityTour.CommandLine.Session
import CityTour.Files
import CityTour.Main
import CityTour.Problem.Basic
import CityTour.Problem.State
import CityTour.Proofs.Account
import CityTour.Proofs.Arc.Degree
import CityTour.Proofs.Arc.Layout
import CityTour.Proofs.Arc.Order
import CityTour.Proofs.Arc.Walk
import CityTour.Proofs.Benchmark.Front
import CityTour.Proofs.BestWindow
import CityTour.Proofs.ClosedWalk
import CityTour.Proofs.Dependence
import CityTour.Proofs.Document.Number
import CityTour.Proofs.Document.RoundTrip
import CityTour.Proofs.Encoding.Arrange
import CityTour.Proofs.Encoding.Decode
import CityTour.Proofs.Encoding.Feasible
import CityTour.Proofs.Encoding.Permutation
import CityTour.Proofs.Encoding.RoundTrip
import CityTour.Proofs.Encoding.Ties
import CityTour.Proofs.Graph.Complete
import CityTour.Proofs.Graph.Label
import CityTour.Proofs.Graph.Neighbours
import CityTour.Proofs.Graph.Reals
import CityTour.Proofs.Graph.RoundTrip
import CityTour.Proofs.Graph.Weight
import CityTour.Proofs.Invariance
import CityTour.Proofs.Monotone
import CityTour.Proofs.Number.Counting
import CityTour.Proofs.Number.Double
import CityTour.Proofs.Outcome
import CityTour.Proofs.Population
import CityTour.Proofs.Ranking
import CityTour.Proofs.Route
import CityTour.Proofs.Sampling
import CityTour.Proofs.Sequence
import CityTour.Proofs.State
import CityTour.Proofs.Units
import CityTour.Proofs.Validation
import CityTour.RandomSearch
