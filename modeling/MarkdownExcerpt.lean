import MarkdownExcerpt.Config.Effective
import MarkdownExcerpt.Config.Environment
import MarkdownExcerpt.Config.Request
import MarkdownExcerpt.Excerpt.Json
import MarkdownExcerpt.Proofs.Composition
import MarkdownExcerpt.Proofs.Isolation
import MarkdownExcerpt.Proofs.Survival
import MarkdownExcerpt.Search
import MarkdownExcerpt.Session
import MarkdownExcerpt.Proofs.Admission
import MarkdownExcerpt.Proofs.Contribution
import MarkdownExcerpt.Proofs.LeftOut
import MarkdownExcerpt.Proofs.Joining
import MarkdownExcerpt.Proofs.Meter.Covers
import MarkdownExcerpt.Proofs.Meter.Faithful
import MarkdownExcerpt.Proofs.Session
import MarkdownExcerpt.Proofs.Geometry
import MarkdownExcerpt.Proofs.Search
import MarkdownExcerpt.Proofs.Checked
import MarkdownExcerpt.Proofs.FullRange
import MarkdownExcerpt.Proofs.Embedding
import MarkdownExcerpt.Proofs.Shape
import MarkdownExcerpt.Proofs.Containment
import MarkdownExcerpt.Proofs.Agreement
import MarkdownExcerpt.Proofs.Influence
import MarkdownExcerpt.Proofs.Interior
import MarkdownExcerpt.Proofs.Bounds
import MarkdownExcerpt.Proofs.Diagnostics
import MarkdownExcerpt.Proofs.Translation
import MarkdownExcerpt.Proofs.Node.Json
import MarkdownExcerpt.Proofs.Reloading
import MarkdownExcerpt.Proofs.Environment
import MarkdownExcerpt.Proofs.Exhaustive
import MarkdownExcerpt.Proofs.Text.Words
