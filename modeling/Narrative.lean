import Narrative.Format.Script
import Narrative.Format.Settings
import Narrative.Format.Story
import Narrative.Proofs.Closed
import Narrative.Proofs.Cycle
import Narrative.Proofs.Discovery
import Narrative.Proofs.Scoring
import Narrative.Proofs.Selection
import Narrative.Story.Load
import Narrative.Story.Play
import Narrative.Story.Removal
import Narrative.StoryId
import Narrative.Proofs.Keys
import Narrative.Proofs.Replay
import Narrative.Proofs.Banks
import Narrative.Proofs.Grounding
import Narrative.Proofs.Removals
import Narrative.Proofs.Filling
import Narrative.Proofs.Reading
import Narrative.Proofs.Clamping
import Narrative.Proofs.Spelling
import Narrative.Proofs.RoundTrip
import Narrative.Proofs.Declaring
import Narrative.Proofs.Accepting
import Narrative.Proofs.Inheritance
import Narrative.Proofs.Pieces
import Narrative.Proofs.Course
import Narrative.Proofs.Layers
import Narrative.Proofs.Parents
import Narrative.Proofs.Paths
import Narrative.Proofs.Conditions
import Narrative.Proofs.Magnitude
import Narrative.Proofs.Cuts
import Narrative.Proofs.Turns
import Narrative.Proofs.Admission
import Narrative.Proofs.Blanks
import Narrative.Proofs.Respelling
import Narrative.Proofs.Storing
import Narrative.Proofs.Similarity
import Narrative.Proofs.Fingerprint
