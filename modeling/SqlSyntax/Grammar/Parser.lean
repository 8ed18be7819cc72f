import SqlSyntax.Config
import SqlSyntax.ParseError
import SqlSyntax.Store

/-!
# Parsers

A parser reads tokens from the front of a list and makes trees. Tokens that were taken never come
back, and a failure keeps what was counted before it: how many tokens were taken, how many nodes
were made, how many bytes were copied, and how many levels were open at most.

What holds only inside a construct (the open levels and the context of new nodes) is in a `Scope`
that productions hand down, so it is as before when a production ends, also by a failure.

A tree is a value, and its nodes are also stored, where each is made, changed and put under another
at the same points of the run: in a store, which lies in the arenas that are kept from run to run,
and in a forest, which is the same without their chunks, blocks and ranges. Nothing of a run
depends on what is stored. An edit that the forest refuses is remembered, and is what the whole run
fails with (`Parser.run`).
-/

namespace SqlSyntax

/-- What a production is told by those around it. -/
structure Scope where
  source : Source
  config : Config
  /-- How much stack the productions take. -/
  stack : StackUse
  /-- Levels that are open. -/
  depth : Nat := 0
  /-- The context of new nodes. -/
  context : Option Context := none

/-- How far a run has come. -/
structure Progress where
  /-- Tokens that are not taken yet. -/
  rest : List Token
  /-- Tokens taken. -/
  taken : Nat := 0
  /-- Where the last token ended. -/
  lastEnd : Nat := 0
  /-- Nodes made; the next node gets this number. -/
  nodes : Nat := 0
  /-- Bytes of copied texts; an empty copy counts one. -/
  copied : Nat := 0
  /-- The most levels that were open at once. -/
  deepest : Nat := 0
  /-- The nodes as they are stored. -/
  forest : Forest := {}
  /-- The nodes and the copied texts as they lie in the arenas. -/
  store : Store := {}
  /-- The first edit of the stored nodes that could not be made. -/
  refused : Option EditError := none

/-- What a run over some tokens starts from. -/
def Progress.start (tokens : List Token) (forest : Forest) (store : Store) : Progress :=
  { rest := tokens, forest, store }

/-- The progress after a step on what is stored. Once one is refused, no more are made. -/
def Progress.edited (c : Command) (p : Progress) : Progress :=
  if p.refused.isSome then p
  else
    match c.onForest.run p.forest with
    | .ok _ forest => { p with forest, store := p.store.after c }
    | .error refused forest => { p with forest, refused := some refused }

/-- How a run fails: by an error, because its tokens do not belong to its source, or because its
nodes cannot be stored as it asks. -/
inductive Failure where
  | error (e : ParseError)
  /-- A quoted token whose body is no piece of the source. -/
  | noBody (t : Token)
  /-- An error whose place is inside a character of the source. -/
  | noLine (e : ParseError)
  /-- An edit of the stored nodes that cannot be made. -/
  | refused (e : EditError)

/-- The failure with the source line of its error. -/
def Failure.withSource (source : Source) : Failure → Failure
  | .error e =>
    match e.withSource? source with
    | some e => .error e
    | none => .noLine e
  | f => f

abbrev Parser := ReaderT Scope (EStateM Failure Progress)

namespace Parser

/-! ## Tokens -/

/-- The next token. -/
def current : Parser (Option Token) := return (← get).rest.head?

/-- The kind of the token `n` places after the next. -/
def kindAt (n : Nat) : Parser (Option TokenKind) := return (← get).rest[n]?.map Token.kind

def currentKind : Parser (Option TokenKind) := kindAt 0

def atEnd : Parser Bool := return (← get).rest.isEmpty

/-- Whether the next token is of a kind. -/
def sees (kind : TokenKind) : Parser Bool := return (← currentKind) == some kind

def seesKeyword (k : Keyword) : Parser Bool := sees (.keyword k)

/-- Whether the next token is one of some keywords. -/
def seesOneOf (ks : List Keyword) : Parser Bool := do
  match ← current with
  | some t => return t.keyword?.any ks.contains
  | none => return false

/-- Takes the next token. -/
def advance : Parser (Option Token) :=
  modifyGet fun p =>
    match p.rest with
    | [] => (none, p)
    | t :: rest => (some t, { p with rest, taken := p.taken + 1, lastEnd := t.span.stop })

/-- Takes the next token if it passes a test. -/
def takeIf? (test : Token → Bool) : Parser (Option Token) := do
  match ← current with
  | some t => if test t then advance else return none
  | none => return none

def take? (kind : TokenKind) : Parser (Option Token) := takeIf? (·.kind == kind)

def takeKeyword? (k : Keyword) : Parser (Option Token) := take? (.keyword k)

/-- Takes the next token if it is of a kind, and tells whether it was. -/
def consume (kind : TokenKind) : Parser Bool := return (← take? kind).isSome

def consumeKeyword (k : Keyword) : Parser Bool := consume (.keyword k)

/-! ## Failures -/

def fail (e : ParseError) : Parser α := throw (.error e)

/-- Just past the last byte of the source. -/
def endLocation : Parser Location := do
  let source := (← read).source
  return Location.atOffset source source.byteSize

/-- Fails at the next token, which is not the expected one. -/
def unexpected (expected : String) : Parser α := do
  match ← current with
  | some t => fail (.unexpected expected t)
  | none => fail (.endOfInput expected (← endLocation))

/-- Takes a token of a kind. -/
def expect (kind : TokenKind) (what : String) : Parser Token := do
  match ← take? kind with
  | some t => return t
  | none => unexpected what

def expectKeyword (k : Keyword) : Parser Token := expect (.keyword k) k.spelling

/-- Fails if strict mode refuses the quotes of a token. -/
def checkQuotes (t : Token) : Parser Unit := do
  if (← read).config.strictAnsi && t.kind == .quotedIdentifier && t.text.toList.head? != some '"'
  then fail (.atToken .quoteStyle t)

/-- Takes a token that passes a test and whose quotes are allowed. -/
def expectWord (test : Token → Bool) (what : String) : Parser Token := do
  match ← current with
  | some t =>
    if test t then
      checkQuotes t
      discard advance
      return t
    else unexpected what
  | none => unexpected what

/-- Takes a name. -/
def expectName (what : String) : Parser Token := expectWord Token.isName what

/-- Takes a part of a qualified name after its dot. -/
def expectNamePart (what : String) : Parser Token := expectWord Token.isNamePart what

/-! ## Levels and contexts -/

/-- Runs a production one level deeper, if the limits allow it. -/
def deeper (body : Parser α) : Parser α := do
  let scope ← read
  let taken := (← get).taken
  let refuse (cause : Cause) : Parser Unit := do
    match ← current with
    | some t => fail (.atToken cause t)
    | none =>
      let location ← endLocation
      fail ⟨cause, location, ⟨location.offset, location.offset⟩, none⟩
  if scope.config.depthLimit ≤ scope.depth then
    refuse (.depthExceeded scope.config.depthLimit)
  if scope.config.exceedsStack (scope.stack taken scope.depth) then
    refuse (.stackExhausted scope.config.stackBudget scope.depth)
  modify fun p => { p with deepest := max p.deepest (scope.depth + 1) }
  withReader (fun s => { s with depth := s.depth + 1 }) body

/-- Runs a production whose nodes get a context. -/
def within (context : Context) (body : Parser α) : Parser α :=
  withReader (fun s => { s with context := some context }) body

/-! ## Nodes -/

/-- Makes a step on what is stored. -/
def edit (c : Command) : Parser Unit := modify (Progress.edited c)

/-- A new node at a place. -/
def newNode (kind : Kind) (location : Location) (span : Span) : Parser Tree := do
  let context := (← read).context
  edit (.alloc kind location span context)
  modifyGet fun p =>
    (.leaf { kind, id := p.nodes, context, location, span }, { p with nodes := p.nodes + 1 })

/-- A new node that starts with a token. -/
def nodeAt (kind : Kind) (t : Token) : Parser Tree := newNode kind t.location t.span

/-- A new node that starts with a tree. -/
def nodeOver (kind : Kind) (first : Tree) : Parser Tree := do
  edit (.look first.head.id)
  newNode kind first.head.location first.head.span

/-- Changes the root of a tree. -/
def amend (t : Tree) (change : Node → Node) : Parser Tree := do
  edit (.amend t.head.id change)
  return t.mapHead change

def flag (t : Tree) (f : Flag) : Parser Tree := amend t (·.mark f)

def flagIf (condition : Bool) (f : Flag) (t : Tree) : Parser Tree :=
  if condition then flag t f else return t

/-- Carries the span of a tree on to the last token taken. -/
def finish (t : Tree) : Parser Tree := do
  let stop := (← get).lastEnd
  amend t fun n => { n with span := n.span.extend stop }

/-- Puts a tree under another as its last child. -/
def attach (parent child : Tree) : Parser Tree := do
  edit (.attach parent.head.id child.head.id)
  return parent.append [child]

/-- Puts a tree under another as its first child. -/
def prepend (parent child : Tree) : Parser Tree := do
  edit (.prepend parent.head.id child.head.id)
  return parent.prepend child

/-! ## Texts -/

/-- Keeps a copy of a text. -/
def copy (text : String) : Parser Text := do
  edit (.copy text)
  modifyGet fun p =>
    (.copied text, { p with copied := p.copied + max text.utf8ByteSize 1 })

/-- A body with each doubled quote written once. -/
def undouble (quote : Char) : List Char → List Char
  | [] => []
  | [c] => [c]
  | c :: d :: cs =>
    if c = quote ∧ d = quote then quote :: undouble quote cs
    else c :: undouble quote (d :: cs)

/-- The text inside the quotes of a token, copied if it has quotes itself. -/
def quotedText (quote : Char) (t : Token) : Parser Text := do
  let inner := t.span.inner 1
  match (← read).source.slice? inner.start inner.stop with
  | none => throw (.noBody t)
  | some body =>
    if body.contains quote then copy (String.ofList (undouble quote body))
    else return .slice inner

/-- The text of a token as a node keeps it: without its quotes and other marks. -/
def tokenText (t : Token) : Parser Text := do
  match t.kind with
  | .string => quotedText '\'' t
  | .quotedIdentifier =>
    match t.text.toList with
    | [] => return .none
    | '[' :: _ => return .slice (t.span.inner 1)
    | quote :: _ => quotedText quote t
  | .blob =>
    let digits := t.span.inner 1
    return .slice ⟨wordAdd digits.start 1, digits.stop⟩
  | _ => return .slice t.span

/-- Gives a tree the text of a token. -/
def setText (t : Tree) (token : Token) : Parser Tree := do
  let text ← tokenText token
  amend t fun n => { n with text }

/-- A new node that starts with a token and holds its text. -/
def namedNode (kind : Kind) (t : Token) : Parser Tree := do
  setText (← nodeAt kind t) t

/-! ## Repetition -/

/-- Runs a step for as long as it answers, at most once more than there are tokens in the list. -/
def iterateOver (step : α → Parser (Option α)) : List Token → α → Parser α
  | [], a => return (← step a).getD a
  | _ :: ts, a => do
    match ← step a with
    | some b => iterateOver step ts b
    | none => return a

/-- Runs a step for as long as it answers. Each answer takes a token, so the tokens that are left
bound the runs. -/
def iterate (step : α → Parser (Option α)) (a : α) : Parser α := do
  iterateOver step (← get).rest a

/-- Some items for as long as `next` finds one. -/
def many (next : Parser (Option α)) : Parser (List α) := do
  let items ← iterate (fun items => do return (← next).map (· :: items)) []
  return items.reverse

/-- Puts items under a tree for as long as `next` finds one. -/
def attachWhile (next : Parser (Option Tree)) (parent : Tree) : Parser Tree :=
  iterate (fun parent => do
    match ← next with
    | some item => return some (← attach parent item)
    | none => return none) parent

/-- An item after a comma, if one follows. -/
def afterComma? (item : Parser Tree) : Parser (Option Tree) := do
  if ← consume .comma then return some (← item) else return none

/-- Puts one item or more under a tree, with commas between them. -/
def attachList (item : Parser Tree) (parent : Tree) : Parser Tree := do
  attachWhile (afterComma? item) (← attach parent (← item))

/-- Puts an item under a tree if a condition holds. -/
def attachIf (condition : Bool) (item : Parser Tree) (parent : Tree) : Parser Tree := do
  if condition then attach parent (← item) else return parent

end Parser

/-- The productions that occur inside one another. Each is called only after its caller has taken
a token. -/
structure Nested where
  /-- An expression whose operators bind at least as tightly as a power. -/
  expression : Nat → Parser Tree
  /-- A query with its own `WITH`. -/
  query : Parser Tree
  /-- A table with the tables joined to it. -/
  joinTree : Parser Tree
  statement : Parser Tree

end SqlSyntax
