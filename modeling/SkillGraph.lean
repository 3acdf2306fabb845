import SkillGraph.Holder
import SkillGraph.Main
import SkillGraph.Proofs.Atom.Required
import SkillGraph.Proofs.Atom.Usable
import SkillGraph.Proofs.Infix.Acceptance
import SkillGraph.Proofs.Lexeme.Refusals
import SkillGraph.Proofs.Lexeme.Spacing
import SkillGraph.Proofs.Machine.Arguments
import SkillGraph.Proofs.Machine.Faults
import SkillGraph.Proofs.Record.Canonical
import SkillGraph.Proofs.Record.Expressions
import SkillGraph.Proofs.Record.Stated
import SkillGraph.Proofs.Reduction.Irreducible
import SkillGraph.Proofs.Reduction.Simulation
import SkillGraph.Proofs.Registry.Attempts
import SkillGraph.Proofs.Registry.Ranking
import SkillGraph.Proofs.Registry.Reordering
import SkillGraph.Proofs.Registry.Tables
import SkillGraph.Proofs.Server.Answers
import SkillGraph.Proofs.Server.Batches
import SkillGraph.Proofs.Spelling.Folding
import SkillGraph.Proofs.Spelling.Gaps
import SkillGraph.Proofs.Spelling.Results
import SkillGraph.Proofs.Spelling.Signs
import SkillGraph.Proofs.Spelling.Spans
