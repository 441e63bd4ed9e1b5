import FetchPlan.Main
import FetchPlan.Proofs.Plan.Names
import FetchPlan.Proofs.Plan.Scope
import FetchPlan.Proofs.Plan.Loaders
import FetchPlan.Proofs.Plan.Failure
import FetchPlan.Proofs.Plan.Report
import FetchPlan.Proofs.Growth
import FetchPlan.Proofs.Registration
import FetchPlan.Proofs.Targets
import FetchPlan.Proofs.Plan.Junctions
import FetchPlan.Proofs.Plan.Sides
import FetchPlan.Proofs.PathErrors
import FetchPlan.Proofs.Typing
import FetchPlan.Proofs.Plan.Monotone
import FetchPlan.Proofs.Plan.Groups
import FetchPlan.Proofs.Saturation
import FetchPlan.Proofs.Plan.Canonical
import FetchPlan.Proofs.Uniqueness
import FetchPlan.Proofs.Plan.Document
import FetchPlan.Proofs.Plan.Lines
import FetchPlan.Proofs.Definition
import FetchPlan.Proofs.Environment
import FetchPlan.Proofs.Loading
