import SqlSyntax.Grammar.Statement

/-!
# Scripts

Statements with semicolons between them: exactly one, all up to the first error, or all with the
errors between them. After an error the reader goes on behind the next semicolon or before the
next word that begins a statement, whichever comes first outside parentheses.
-/

namespace SqlSyntax

open SqlSyntax.Parser

namespace Script

/-- Takes the semicolons that come next. -/
def skipSemicolons : Parser Unit := discard <| many (take? .semicolon)

/-- The next statement, with as many calls of productions as there are tokens. -/
def nextStatement : Parser Tree := do
  (Nested.forTokens (← get).rest.length).statement

/-- The only statement, with semicolons around it. -/
def single : Parser Tree := do
  skipSemicolons
  if ← atEnd then unexpected "statement"
  else
    let root ← nextStatement
    skipSemicolons
    if ← atEnd then return root else unexpected "end of statement"

/-- The next statement of several, unless only semicolons are left. -/
def next? : Parser (Option Tree) := do
  skipSemicolons
  if ← atEnd then return none
  else
    let root ← nextStatement
    if ← atEnd then return some root
    else if ← consume .semicolon then return some root
    else unexpected "';' or end of input"

/-- All statements. -/
def all : Parser (List Tree) := many next?

/-- Takes tokens up to where a statement may begin. The depth counts open parentheses; the first
token is taken in any case. -/
def skipFrom : Nat → Bool → List Token → List Token × List Token
  | _, _, [] => ([], [])
  | depth, first, t :: rest =>
    if !first && depth == 0 && t.keyword?.any Keyword.startsStatement then ([], t :: rest)
    else
      let go (depth : Nat) :=
        let (skipped, left) := skipFrom depth false rest
        (t :: skipped, left)
      match t.kind with
      | .leftParen => go (depth + 1)
      | .rightParen => go (depth - 1)
      | .semicolon => if depth == 0 then ([t], rest) else go depth
      | _ => go depth

/-- Goes on to where a statement may begin. -/
def synchronize : Parser Unit :=
  modify fun p =>
    let (skipped, rest) := skipFrom 0 true p.rest
    { p with
      rest
      taken := p.taken + skipped.length
      lastEnd := (skipped.getLast?.map (·.span.stop)).getD p.lastEnd }

end Script

/-- What came of a run. -/
structure Run (α : Type) where
  answer : Except Failure α
  progress : Progress

/-- Runs a parser over the tokens of a source. A run that asked for an edit of the stored nodes that
could not be made fails with that, whatever came after it. -/
def Parser.run (p : Parser α) (scope : Scope) (progress : Progress) : Run α :=
  match p scope progress with
  | .ok a progress =>
    match progress.refused with
    | some e => ⟨.error (.refused e), progress⟩
    | none => ⟨.ok a, progress⟩
  | .error f progress => ⟨.error ((progress.refused.map .refused).getD f), progress⟩

namespace Script

/-- The statements and errors that are left, for so many attempts. -/
def recoverFor (scope : Scope) : Nat → Progress → List Tree × List Failure × Progress
  | 0, p => ([], [], p)
  | n + 1, p =>
    match next?.run scope p with
    | ⟨.ok none, p⟩ => ([], [], p)
    | ⟨.ok (some root), p⟩ =>
      let (roots, failures, p) := recoverFor scope n p
      (root :: roots, failures, p)
    | ⟨.error e, p⟩ =>
      let after := (synchronize.run scope p).progress
      let (roots, failures, p) := recoverFor scope n after
      (roots, e :: failures, p)

/-- All statements and all errors. An attempt takes a token if one is left, so the tokens bound
the attempts. -/
def recover (scope : Scope) (start : Progress) : List Tree × List Failure × Progress :=
  recoverFor scope (start.rest.length + 1) start

end Script

end SqlSyntax
