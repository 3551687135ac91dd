import Scriptlet.Proofs.Cutting.Earlier
import Scriptlet.Proofs.Cutting.Places
import Scriptlet.Proofs.Cutting.Scopes
import Scriptlet.Proofs.Cutting.Stretches
import Scriptlet.Proofs.Evaluation.Outcomes
import Scriptlet.Proofs.Resolving.Submissions

/-!
# A session is a block cut into pieces

The statements of a block may as well be submitted one by one, each of them
continuing the one before. They are resolved to the same statements and
variables, and evaluated one behind the other on one store they print, read,
draw and store what the block does, up to the same end.
-/

namespace Scriptlet

namespace Session

open Scriptlet.Bound Scriptlet.Frame Meaning Submission Syntax

/-- Compiles sources one behind the other, each of them continuing the one
before. -/
def compileAll (s : Session) : List Source → List Submission
  | [] => []
  | source :: sources =>
    let (submission, compiled) := s.compile source
    submission :: (compiled.rewind (submission :: s.chain)).compileAll sources

/-- Submissions that are evaluated one behind the other, each of them reading on
where the one before it stopped, all run to their end. `printed` are the lines
that they print and `left` the inputs that they leave. -/
inductive Completes : Session → (inputs : List String) → List Submission →
    (printed left : List String) → Session → Prop where
  | nil (s : Session) (inputs : List String) : Completes s inputs [] [] inputs s
  | cons {s between after : Session} {submission : Submission} {others : List Submission}
      {inputs printed left : List String} {steps : Nat} {evaluated : Evaluated} {value : Value}
      (run : s.evaluate steps inputs submission = some (evaluated, between))
      (finished : evaluated.outcome = .finished value)
      (rest : Completes between evaluated.inputsLeft others printed left after) :
      Completes s inputs (submission :: others) (evaluated.printed ++ printed) left after

variable {s after : Session} {sources : List Source} {pieces : List Submission}
  {piece whole : Submission} {rounds : Nat} {last value : Value} {memory behind : Memory}
  {fault : Fault}

/-- Sources whose statements mean something in a row, where the same variables
are visible as behind the chain of a session, are compiled one by one to the
parts of that meaning. -/
theorem compileAll_of_elaborateAll {outer : Rows} {here there : Frame}
    {bounds : List Bound.Stmt}
    (h : Stmt.ElaborateAll outer here (sources.map (·.script.statement.unplaced)) bounds there)
    (proper : (rows s.chain).Proper) (alike : Alike outer (rows s.chain) here (.fresh s.nextId)) :
    (s.compileAll sources).map Submission.source = sources ∧
      (s.compileAll sources).map Submission.statement = bounds ∧
      ∀ piece ∈ s.compileAll sources, piece.resolveDiagnostics = [] := by
  induction sources generalizing s here bounds with
  | nil =>
    cases h
    exact ⟨rfl, rfl, fun _ hpiece => absurd hpiece List.not_mem_nil⟩
  | cons source sources ih =>
    cases h with
    | @cons _ _ _ _ _ _ bound bounds part parts =>
      obtain ⟨there', unplaced, alike'⟩ := part.alike alike
      have elaborates := source.script.statement.elaborates_of_unplaced unplaced
      have compiled := compile_of_elaborates proper.distinct elaborates
      have follows : Follows ⟨source, bound, there'.vars, []⟩ s.chain s.nextId there'.nextId :=
        ⟨elaborates, rfl⟩
      obtain ⟨sameSources, sameStatements, clean⟩ :=
        ih (s := ⟨⟨source, bound, there'.vars, []⟩ :: s.chain, s.store, there'.nextId, s.draws⟩)
          parts (follows.proper proper) alike'.follow
      have unfolded : s.compileAll (source :: sources) = ⟨source, bound, there'.vars, []⟩ ::
          Session.compileAll ⟨⟨source, bound, there'.vars, []⟩ :: s.chain, s.store,
            there'.nextId, s.draws⟩ sources := by
        rw [compileAll, Session.compile, compiled]
        rfl
      rw [unfolded, List.map_cons, List.map_cons, sameSources, sameStatements]
      exact ⟨rfl, rfl, List.forall_mem_cons.2 ⟨rfl, clean⟩⟩

/-- A piece that comes to an end behind others is evaluated to the same kind of
end on what they left, and prints what it adds to their lines. -/
theorem evaluate_of_interpret (clean : piece.diagnostics = [])
    (structured : piece.statement.Structured) {result : Except Fault Value}
    (means : piece.statement.interpret rounds last memory = some (result, behind)) :
    ∃ steps evaluated, (s.behind memory).evaluate steps memory.console.inputs piece =
        some (evaluated, s.behind behind) ∧ evaluated.outcome.EndsAs result ∧
      evaluated.inputsLeft = behind.console.inputs ∧
      behind.console.printed.toList = memory.console.printed.toList ++ evaluated.printed := by
  have ends := piece.statement.oblivious rounds memory.console.printed .void last
    (.start memory.store memory.console.inputs memory.draws)
  rw [Memory.following_start, means] at ends
  generalize alone : piece.statement.interpret rounds .void _ = ending at ends
  have runs {result' : Except Fault Value} {after : Memory}
      (h : ending = some (result', after)) : ∃ steps,
        (s.behind memory).evaluate steps memory.console.inputs piece =
          some (⟨.ofResult result', after.console.printed.toList, after.console.inputs⟩,
            s.behind after) := by
    obtain ⟨steps, run⟩ := (exists_evaluate_iff_interpret clean structured).2
      ⟨rounds, result', alone.trans h, rfl⟩
    exact ⟨steps, evaluate_of_some run⟩
  cases ends with
  | value value' value after =>
    obtain ⟨steps, run⟩ := runs rfl
    exact ⟨steps, _, run, ⟨value', rfl⟩, rfl, Array.toList_append⟩
  | fault fault after =>
    obtain ⟨steps, run⟩ := runs rfl
    exact ⟨steps, _, run, rfl, rfl, Array.toList_append⟩

/-- Pieces that come to their end in a row are evaluated one behind the other to
their end. -/
theorem completes_of_interpretAll
    (sound : ∀ piece ∈ pieces, piece.diagnostics = [] ∧ piece.statement.Structured)
    (means : Bound.Stmt.interpretAll rounds (pieces.map Submission.statement) last memory =
      some (.ok value, behind)) :
    ∃ printed, (s.behind memory).Completes memory.console.inputs pieces printed
        behind.console.inputs (s.behind behind) ∧
      behind.console.printed.toList = memory.console.printed.toList ++ printed := by
  induction pieces generalizing last memory with
  | nil =>
    cases means
    exact ⟨[], .nil _ _, (List.append_nil _).symm⟩
  | cons piece pieces ih =>
    rw [List.forall_mem_cons] at sound
    rw [List.map_cons, Bound.Stmt.interpretAll] at means
    rcases first : piece.statement.interpret rounds last memory with
      _ | ⟨fault | value', between⟩
    · rw [andThen_of_none first] at means
      cases means
    · rw [andThen_of_error first] at means
      cases means
    · rw [andThen_of_ok first] at means
      obtain ⟨steps, evaluated, run, ⟨_, finished⟩, left, printed⟩ :=
        evaluate_of_interpret (s := s) sound.1.1 sound.1.2 first
      obtain ⟨others, completes, printed'⟩ := ih sound.2 means
      rw [← left] at completes
      refine ⟨evaluated.printed ++ others, .cons run finished completes, ?_⟩
      rw [printed', printed, List.append_assoc]

/-- The evaluation of a block stops at a fault in one of its pieces: the pieces
in front of it run to their end, the piece stops at the same fault, and the
statement at which the program of the block stops is one of the piece. -/
def StopsInPiece (s : Session) (inputs : List String) (whole : Submission)
    (pieces : List Submission) (fault : Fault) (evaluated : Evaluated) (after : Session) : Prop :=
  ∃ front piece rest printed left between steps stopped, pieces = front ++ piece :: rest ∧
    s.Completes inputs front printed left between ∧
    between.evaluate steps left piece = some (stopped, after) ∧
    stopped.outcome = .failed fault ∧ evaluated.inputsLeft = stopped.inputsLeft ∧
    evaluated.printed = printed ++ stopped.printed ∧
    whole.program.FailsIn (Bound.Stmt.stretch (front.map Submission.statement) piece.statement)
      (.start s.store inputs s.draws) fault

/-- A block without problems is evaluated as its pieces are, one behind the
other. -/
theorem evaluate_block (clean : whole.diagnostics = [])
    (cut : whole.statement = .block (pieces.map Submission.statement))
    (structured : whole.statement.Structured) (sound : ∀ piece ∈ pieces, piece.diagnostics = [])
    {inputs : List String} {steps : Nat} {evaluated : Evaluated}
    (run : s.evaluate steps inputs whole = some (evaluated, after)) :
    (∃ value, evaluated.outcome = .finished value ∧
      s.Completes inputs pieces evaluated.printed evaluated.inputsLeft after) ∨
    ∃ fault, evaluated.outcome = .failed fault ∧
      s.StopsInPiece inputs whole pieces fault evaluated after := by
  obtain ⟨memory, hrun, hprinted, hleft, rfl⟩ := exists_of_evaluate run
  obtain ⟨rounds, result, means, houtcome⟩ :=
    (exists_evaluate_iff_interpret clean structured).1 ⟨steps, hrun⟩
  have parts : ∀ piece ∈ pieces, piece.diagnostics = [] ∧ piece.statement.Structured := by
    intro piece hpiece
    refine ⟨sound piece hpiece, ?_⟩
    rw [cut] at structured
    cases structured with
    | block _ inside => exact inside _ (List.mem_map_of_mem hpiece)
  rw [cut, Bound.Stmt.interpret] at means
  cases result with
  | ok value =>
    obtain ⟨printed, completes, hlines⟩ := completes_of_interpretAll (s := s) parts means
    rw [hleft, hprinted, hlines]
    exact .inl ⟨value, houtcome, completes⟩
  | error fault =>
    obtain ⟨_, _, _, value, between, split, hfront, hfault⟩ :=
      Bound.Stmt.exists_split_of_error means
    obtain ⟨front, others, rfl, rfl, hothers⟩ := List.map_eq_append_iff.1 split
    obtain ⟨piece, rest, rfl, rfl, rfl⟩ := List.map_eq_cons_iff.1 hothers
    have first : ∀ piece ∈ front, piece.diagnostics = [] ∧ piece.statement.Structured :=
      fun piece hpiece => parts piece (List.mem_append_left _ hpiece)
    have failing := parts piece (List.mem_append_right _ List.mem_cons_self)
    obtain ⟨printed, completes, hlines⟩ := completes_of_interpretAll (s := s) first hfront
    obtain ⟨steps', stopped, run', houtcome', hleft', hlines'⟩ :=
      evaluate_of_interpret (s := s) failing.1 failing.2 hfault
    rw [cut, List.map_append, List.map_cons] at structured
    have stops := Bound.Stmt.failsIn_stretch structured hfront hfault
    refine .inr ⟨fault, houtcome, front, piece, rest, printed, _, _, steps', stopped, rfl,
      completes, run', houtcome', hleft.trans hleft'.symm, ?_, ?_⟩
    · rw [hprinted, hlines', hlines]
      rfl
    · rw [Submission.program, cut, List.map_append, List.map_cons]
      exact stops

/-- A session is a block cut into pieces. Let a complete block be compiled
without a report, behind submissions without problems or as a first submission,
and let its statements, wherever they are written, be compiled one by one, each
of them continuing the one before. Then none of them is reported on, and they
are resolved to the parts of the block, with the same variables. If the
evaluation of the block on some store, inputs and draws is over, then the pieces,
evaluated one behind the other on the same store, print the same lines, leave
the same inputs, and lead to the same store: either all of them run to their
end, or the one that holds the failing statement stops at the same fault. -/
theorem block_agrees_with_pieces {block : Source} {opening closing : Token}
    (chain : Flawless s.chain)
    (cut : block.script.statement.unplaced =
      .block opening (sources.map (·.script.statement.unplaced)) closing)
    (complete : block.script.statement.node.Complete)
    (clean : (s.compile block).1.resolveDiagnostics = []) :
    (∀ piece ∈ s.compileAll sources, piece.resolveDiagnostics = []) ∧
    (s.compile block).1.statement = .block ((s.compileAll sources).map Submission.statement) ∧
    (block.diagnostics = [] → (∀ source ∈ sources, source.diagnostics = []) →
      ∀ inputs steps evaluated after,
        s.evaluate steps inputs (s.compile block).1 = some (evaluated, after) →
        (∃ value, evaluated.outcome = .finished value ∧
          s.Completes inputs (s.compileAll sources) evaluated.printed evaluated.inputsLeft after) ∨
        ∃ fault, evaluated.outcome = .failed fault ∧
          s.StopsInPiece inputs (s.compile block).1 (s.compileAll sources) fault evaluated
            after) := by
  have proper := chain.proper
  have follows : (s.compile block).1.Follows s.chain s.nextId _ :=
    follows_compile proper complete clean
  have hsource : (s.compile block).1.source = block := rfl
  obtain ⟨bound, there, hstatement, unplaced⟩ : ∃ bound there,
      (s.compile block).1.statement = bound ∧
      Stmt.Elaborates (rows s.chain) (.fresh s.nextId)
        (.block opening (sources.map (·.script.statement.unplaced)) closing) bound there :=
    ⟨_, _, rfl, cut ▸ follows.elaborates.unplaced⟩
  cases unplaced with
  | block parts =>
    obtain ⟨sameSources, sameStatements, cleanPieces⟩ := compileAll_of_elaborateAll parts proper
      ⟨fun _ => rfl, fun _ _ => rfl, rfl⟩
    rw [← sameStatements] at hstatement
    refine ⟨cleanPieces, hstatement, fun hblock hsources inputs steps evaluated after run => ?_⟩
    have cleanBlock : (s.compile block).1.diagnostics = [] := by
      rw [Submission.diagnostics, hsource, hblock, clean, List.append_nil]
    have sound : ∀ piece ∈ s.compileAll sources, piece.diagnostics = [] := by
      intro piece hpiece
      have hmem := List.mem_map_of_mem (f := Submission.source) hpiece
      rw [sameSources] at hmem
      rw [Submission.diagnostics, hsources _ hmem, cleanPieces piece hpiece, List.append_nil]
    exact evaluate_block cleanBlock hstatement (follows.wellTyped proper).structured sound run

/-- A block that prints a line it has read and divides by zero behind that. -/
def dividingBlock : Source := .ofText "\x7b line = input() print(line) 1 / 0 \x7d"

/-- The statements of the block as sources of their own. -/
def dividingPieces : List Source :=
  [.ofText "line = input()", .ofText "print(line)", .ofText "1 / 0"]

/-- A token without a place that is not a literal. -/
def word (kind : Kind) (text : String) : Token := ⟨kind, text, none, .empty 0, false⟩

/-- The trees of the statements without the places of their tokens. -/
def dividingStatements : List Syntax.Stmt :=
  [.expression (.assignment (word .identifier "line") (word .assignment "=")
      (.call (word .identifier "input") (word .openParen "(") [] (word .closeParen ")"))),
    .expression (.call (word .identifier "print") (word .openParen "(")
      [.name (word .identifier "line")] (word .closeParen ")")),
    .expression (.binary (.literal ⟨.number, "1", some (.int 1), .empty 0, false⟩)
      (word .slash "/") (.literal ⟨.number, "0", some (.int 0), .empty 0, false⟩))]

/-- The third piece of a block stops at the fault of the block, behind two others
that read and print what the block does. -/
theorem block_agrees_with_pieces_dividingBlock :
    ∃ s evaluated after, s = start (.ofSeed 0) ∧
      s.evaluate 4 ["a", "b"] (s.compile dividingBlock).1 = some (evaluated, after) ∧
      evaluated = ⟨.failed .divisionByZero, ["a"], ["b"]⟩ ∧
      s.StopsInPiece ["a", "b"] (s.compile dividingBlock).1 (s.compileAll dividingPieces)
        .divisionByZero evaluated after := by
  have run : (start (.ofSeed 0)).evaluate 4 ["a", "b"]
      ((start (.ofSeed 0)).compile dividingBlock).1 =
        some (⟨.failed .divisionByZero, ["a"], ["b"]⟩, _) := rfl
  have whole : dividingBlock.script.statement.unplaced =
      .block (word .openCurly "\x7b") dividingStatements (word .closeCurly "\x7d") := rfl
  have parts : dividingPieces.map (·.script.statement.unplaced) = dividingStatements := rfl
  have clean : ∀ source ∈ dividingPieces, source.diagnostics = [] := by
    simp only [dividingPieces, List.forall_mem_cons]
    exact ⟨rfl, rfl, rfl, fun _ h => absurd h List.not_mem_nil⟩
  rw [← parts] at whole
  have agree := block_agrees_with_pieces (s := start (.ofSeed 0)) .nil whole
    (Source.complete_ofText rfl) rfl
  refine ⟨_, _, _, rfl, run, rfl, ?_⟩
  rcases agree.2.2 rfl clean _ _ _ _ run with ⟨value, finished, -⟩ | ⟨fault, failed, stops⟩
  · cases finished
  · cases failed
    exact stops

end Session

end Scriptlet
