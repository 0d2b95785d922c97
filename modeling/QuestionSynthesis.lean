import QuestionSynthesis.Dialogue.GraphStore
import QuestionSynthesis.Proofs.Corpus.Comparison
import QuestionSynthesis.Proofs.Corpus.Mutual
import QuestionSynthesis.Proofs.Corpus.Navigation
import QuestionSynthesis.Proofs.Corpus.StableRanking
import QuestionSynthesis.Proofs.Dialogue.StructuredReply
import QuestionSynthesis.Proofs.Evolution.Budget
import QuestionSynthesis.Proofs.Evolution.Coverage
import QuestionSynthesis.Proofs.Evolution.Filter
import QuestionSynthesis.Proofs.Evolution.Growth
import QuestionSynthesis.Proofs.Evolution.Indifference
import QuestionSynthesis.Proofs.Evolution.Kept
import QuestionSynthesis.Proofs.Evolution.Provenance
import QuestionSynthesis.Proofs.Evolution.SecondContext
import QuestionSynthesis.Proofs.Evolution.Termination
import QuestionSynthesis.Proofs.Testset.Distribution
import QuestionSynthesis.Proofs.Testset.Failures
import QuestionSynthesis.Proofs.Testset.RoundTrip
import QuestionSynthesis.Proofs.Testset.Rows
import QuestionSynthesis.Proofs.Testset.Settings
import QuestionSynthesis.Proofs.Json.Reader
import QuestionSynthesis.Proofs.Property.Document
import QuestionSynthesis.Proofs.Property.RoundTrip
import QuestionSynthesis.Proofs.Corpus.RoundTrip
import QuestionSynthesis.Proofs.RoundTrip
