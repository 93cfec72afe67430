import BoostedTrees.Comparison
import BoostedTrees.Routine.Evaluation
import BoostedTrees.Proofs.Assembly.Coverage
import BoostedTrees.Proofs.Assembly.WorkList
import BoostedTrees.Proofs.Dump.Chain
import BoostedTrees.Proofs.Dump.Draft
import BoostedTrees.Proofs.Dump.Layout
import BoostedTrees.Proofs.Dump.ObjectiveText
import BoostedTrees.Proofs.Dump.SplitLists
import BoostedTrees.Proofs.Dump.Stores
import BoostedTrees.Proofs.Dump.Trailer
import BoostedTrees.Proofs.Ensemble.Acceptance
import BoostedTrees.Proofs.Ensemble.Agreement
import BoostedTrees.Proofs.Ensemble.Executors
import BoostedTrees.Proofs.Objective.Sigmoid
import BoostedTrees.Proofs.Objective.Softmax
import BoostedTrees.Proofs.Predictor
import BoostedTrees.Proofs.Registry.Effects
import BoostedTrees.Proofs.Registry.Identity
import BoostedTrees.Proofs.Routine.Equivalence
import BoostedTrees.Proofs.Routine.Repetition
import BoostedTrees.Proofs.Tree.Categories
import BoostedTrees.Proofs.Tree.Preorder
