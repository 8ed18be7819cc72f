import SqlSyntax.Proofs.Casing
import SqlSyntax.Proofs.Relabelling

/-!
# Rules for statements in upper case

A piece of a source in upper case is the piece in upper case, so a tree over the source stands for
one over the source in upper case, whose copied texts are in upper case too (`Tree.folded`). Both
trees break the same rules for whole statements at the same places (`validate_folded`), and the
names that are reported differ in case only.
-/

namespace SqlSyntax

/-! ## Pieces -/

namespace Source

theorem dropBytes_upper (n : Nat) (cs : Source) :
    dropBytes n (cs.map Char.toUpper) = (dropBytes n cs).map (·.map Char.toUpper) := by
  fun_induction dropBytes n cs with
  | case1 cs => rw [dropBytes, Option.map_some]
  | case2 => rfl
  | case3 n c cs hle ih => rw [List.map_cons, dropBytes, caseless_utf8Size c, if_pos hle, ih]
  | case4 n c cs hle =>
    rw [List.map_cons, dropBytes, caseless_utf8Size c, if_neg hle, Option.map_none]

theorem takeBytes_upper (n : Nat) (cs : Source) :
    takeBytes n (cs.map Char.toUpper) = (takeBytes n cs).map (·.map Char.toUpper) := by
  fun_induction takeBytes n cs with
  | case1 cs => rw [takeBytes, Option.map_some, List.map_nil]
  | case2 => rfl
  | case3 n c cs hle ih =>
    rw [List.map_cons, takeBytes, caseless_utf8Size c, if_pos hle, ih, Option.map_map,
      Option.map_map]
    rfl
  | case4 n c cs hle =>
    rw [List.map_cons, takeBytes, caseless_utf8Size c, if_neg hle, Option.map_none]

theorem slice?_upper (source : Source) (start stop : Nat) :
    slice? (source.map Char.toUpper) start stop =
      (source.slice? start stop).map (·.map Char.toUpper) := by
  rw [slice?, slice?, dropBytes_upper]
  split
  · rcases source.dropBytes start with _ | cs
    · rfl
    · exact takeBytes_upper _ cs
  · rfl

theorem at?_upper (source : Source) (s : Span) :
    at? (source.map Char.toUpper) s = (source.at? s).map foldCase := by
  rw [at?, slice?_upper, at?, Option.map_map, Option.map_map]
  exact congrArg (fun f => (source.slice? s.start s.stop).map f)
    (funext fun cs => (foldCase_ofList cs).symm)

end Source

/-! ## Trees -/

/-- The text with its copy in upper case. -/
def Text.folded : Text → Text
  | .copied value => .copied (foldCase value)
  | text => text

theorem Text.resolve_folded (source : Source) (text : Text) :
    text.folded.resolve (source.map Char.toUpper) = (text.resolve source).map foldCase := by
  rcases text with _ | span | value
  · rfl
  · exact source.at?_upper span
  · rfl

/-- The node with its texts in upper case. -/
def Node.folded (n : Node) : Node :=
  { n with
    text := n.text.folded
    qualifier := n.qualifier.folded
    schema := n.schema.folded
    catalog := n.catalog.folded }

@[simp]
theorem Node.kind_folded (n : Node) : n.folded.kind = n.kind := rfl

theorem Node.schema_folded (n : Node) : (n.folded.schema == .none) = (n.schema == .none) := by
  show (n.schema.folded == .none) = _
  cases n.schema <;> rfl

/-- The tree with its texts in upper case. -/
def Tree.folded (t : Tree) : Tree := t.mapNodes Node.folded

namespace Tree

variable {cs : List Tree}

theorem folded_node (n : Node) (cs : List Tree) :
    folded (.node n cs) = .node n.folded (cs.map folded) := mapNodes_node Node.folded n cs

theorem folded_leaf (n : Node) : (leaf n).folded = leaf n.folded := folded_node n []

@[simp]
theorem head_folded (t : Tree) : t.folded.head = t.head.folded := by
  cases t
  rw [folded_node, head, head]

@[simp]
theorem kind_folded (t : Tree) : t.folded.kind = t.kind := by
  rw [kind, head_folded]
  rfl

@[simp]
theorem children_folded (t : Tree) : t.folded.children = t.children.map folded := by
  cases t
  rw [folded_node, children, children]

end Tree

/-! ## Rules -/

/-- What nodes become in upper case. -/
def Relabelling.casing (source : Source) : Relabelling where
  source := source
  source' := source.map Char.toUpper
  node := Node.folded
  name := foldCase
  names _ := true
  location := id
  span := id
  number := id

theorem Relabelling.casing_lawful (source : Source) : (casing source).Lawful where
  kind _ := rfl
  has _ _ := rfl
  schema := Node.schema_folded
  text n _ := by
    show (n.text.folded.resolve (source.map Char.toUpper)).getD "" =
      foldCase ((n.text.resolve source).getD "")
    rw [Text.resolve_folded]
    cases n.text.resolve source with
    | none => decide +kernel
    | some text => rfl
  location _ := rfl
  span _ := rfl
  id _ := rfl
  fold := foldCase_foldCase
  names _ _ := rfl

/-- In upper case a tree breaks the same rule first, at the same place. -/
theorem validate_folded {source : Source} {mode : Mode} (t : Tree) :
    validate (source.map Char.toUpper) mode t.folded =
      (validate source mode t).map (Relabelling.casing source).violation :=
  Relabelling.validate_tree (Relabelling.casing_lawful source) fun _ _ _ _ _ => rfl

end SqlSyntax
