import SqlSyntax.Grammar.Script
import SqlSyntax.Token.Tokenize
import SqlSyntax.Validation

/-!
# Sessions

A session parses one text after another with one configuration. Each call starts afresh; what is
kept is how far the last one came, with the nodes that it stored. A parse answers with trees that
keep the rules for whole statements, or with a failure that shows its source line.
-/

namespace SqlSyntax

/-- The ways to parse a text: one statement, a script up to its first error, or all that is in it.
Each has productions of its own around those that they share. -/
inductive Way where
  | one
  | script
  | all
deriving DecidableEq

structure Session where
  config : Config := {}
  /-- How much stack is in use below each way to parse, which lies with the machine. -/
  stack : Way → StackUse := fun _ => .even
  /-- How far the last call came. -/
  last : Progress := { rest := [] }

/-- What a parse with recovery found. -/
structure Report where
  /-- The statements that have no error. -/
  statements : List Tree
  /-- The errors, in the order of their places. -/
  errors : List ParseError

namespace Report

def isClean (r : Report) : Bool := r.errors.isEmpty

end Report

namespace Session

/-- A session that has done nothing, where nodes take some bytes and texts are copied to the blocks
of some system. -/
def new (config : Config) (stack : Way → StackUse) (unit : Nat) (supply : Supply) : Session where
  config
  stack
  last := { rest := [], store := .new unit supply }

/-- The tree of a statement that keeps the rules, or its first violation as an error. -/
def checked (source : Source) (mode : Mode) (t : Tree) : Except Failure Tree :=
  match validate source mode t with
  | none => .ok t
  | some v => .error ((Failure.error (.ofViolation v)).withSource source)

/-- What a call starts from: some tokens, and the storage of the last call with nothing in it. -/
def start (s : Session) (tokens : List Token) : Progress :=
  .start tokens s.last.forest.reset s.last.store.reset

/-- What the productions are told by a way to parse a source. No level is open yet, and new nodes
have no context. -/
def scope (s : Session) (way : Way) (source : Source) : Scope where
  source
  config := s.config
  stack := s.stack way
  depth := 0
  context := none

/-- The answer of a run and the session after it. -/
def finish (s : Session) (source : Source) (run : Run α) (check : α → Except Failure β) :
    Except Failure β × Session :=
  ((run.answer.mapError (·.withSource source)).bind check, { s with last := run.progress })

/-- Parses one statement from tokens of a source. -/
def parseTokens (s : Session) (source : Source) (tokens : List Token) :
    Except Failure Tree × Session :=
  s.finish source (Script.single.run (s.scope .one source) (s.start tokens))
    (checked source s.config.mode)

/-- Parses one statement, which semicolons may surround. -/
def parse (s : Session) (source : Source) : Except Failure Tree × Session :=
  s.parseTokens source (tokenize source)

/-- Parses statements with semicolons between them, up to the first error. -/
def parseScript (s : Session) (source : Source) : Except Failure (List Tree) × Session :=
  s.finish source (Script.all.run (s.scope .script source) (s.start (tokenize source)))
    (·.mapM (checked source s.config.mode))

/-- The errors among some failures; none of them if one is no error. -/
def errors : List Failure → Except Failure (List ParseError)
  | [] => .ok []
  | .error e :: fs => (errors fs).map (e :: ·)
  | f :: _ => .error f

def failure? : Except Failure α → Option Failure
  | .error f => some f
  | .ok _ => none

/-- Parses statements with semicolons between them and goes on after errors. A statement that
breaks a rule is an error too. -/
def parseAll (s : Session) (source : Source) : Except Failure Report × Session :=
  let (roots, failures, last) := Script.recover (s.scope .all source) (s.start (tokenize source))
  let answers := roots.map (checked source s.config.mode)
  let found := errors (failures.map (·.withSource source) ++ answers.filterMap failure?)
  (found.map fun es =>
      ⟨answers.filterMap Except.toOption,
        es.mergeSort fun a b => decide (a.location.offset ≤ b.location.offset)⟩,
    { s with last })

/-- The session with nothing left of its last call but the storage. -/
def reset (s : Session) : Session := { s with last := s.start [] }

end Session

end SqlSyntax
