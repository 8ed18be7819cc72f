import SqlSyntax.Proofs.TypeNames

/-!
# Runs that build known trees

What the steps of a run do to a tree, told up to the numbers and places of its nodes
(`Tree.erased`). A node outside of queries has no context, so there the kind of a new node tells all
of it (`Node.unplaced`).
-/

namespace SqlSyntax

open SqlSyntax.Parser SqlSyntax.Expression

/-! ## Room for levels -/

/-- So many more levels may be opened. -/
def Scope.HasRoom (scope : Scope) (levels : Nat) : Prop :=
  ∀ depth, scope.depth ≤ depth → depth < scope.depth + levels → scope.Opens depth

theorem Parser.Gives.deeperIn {α : Type} {scope : Scope} {levels : Nat} {ts : List Token}
    {p : Parser α} {fact : α → List Token → Prop} (hroom : scope.HasRoom (levels + 1))
    (hp : Scope.HasRoom { scope with depth := scope.depth + 1 } levels →
      Gives { scope with depth := scope.depth + 1 } ts p fact) :
    Gives scope ts (Parser.deeper p) fact := by
  refine .deeper (hroom scope.depth (Nat.le_refl _) (by omega)) (hp fun depth hle hlt => ?_)
  dsimp only at hle hlt
  exact hroom depth (by omega) (by omega)

/-! ## Trees outside of queries -/

/-- A node outside of queries that was not made at a place. -/
def Node.unplaced (kind : Kind) (text : Text := .none) : Node :=
  { kind, id := 0, text, location := {}, span := {} }

theorem Tree.erasedAll_append (source : Source) (cs more : List Tree) :
    erasedAll source (cs ++ more) = erasedAll source cs ++ erasedAll source more := by
  induction cs with
  | nil => rfl
  | cons c cs ih => rw [List.cons_append, erasedAll, ih, erasedAll, List.cons_append]

theorem Tree.erased_append (source : Source) (u : Tree) (more : List Tree) :
    (u.append more).erased source = (u.erased source).append (erasedAll source more) := by
  obtain ⟨n, cs⟩ := u
  rw [append, erased, erased, append]
  exact congrArg _ (erasedAll_append source cs more)

theorem Tree.kind_erased (source : Source) (u : Tree) : (u.erased source).kind = u.kind := by
  obtain ⟨n, cs⟩ := u
  rw [erased]
  rfl

namespace Parser.Gives

variable {scope : Scope} {ts : List Token} {t : Token} {u child a b : Tree}

theorem newNode_erased (hcontext : scope.context = none) (kind : Kind) (location : Location)
    (span : Span) :
    Gives scope ts (Parser.newNode kind location span) fun v r =>
      v.erased scope.source = .leaf (.unplaced kind) ∧ r = ts := by
  have hflags : Flags.empty.without (.only .parenthesized) = .empty := by decide
  refine (newNode kind location span).weaken ?_
  rintro _ _ ⟨⟨id, rfl⟩, rfl⟩
  rw [hcontext, Tree.leaf, Tree.erased, Tree.erasedAll, Node.erased, hflags]
  exact ⟨rfl, rfl⟩

theorem nodeOver_erased (hcontext : scope.context = none) (kind : Kind) (first : Tree) :
    Gives scope ts (Parser.nodeOver kind first) fun v r =>
      v.erased scope.source = .leaf (.unplaced kind) ∧ r = ts := by
  refine (edit _).bind ?_
  rintro _ _ rfl
  exact newNode_erased hcontext kind _ _

theorem amend_erased {change : Node → Node} (change' : Node → Node)
    (h : ∀ n, (change n).erased scope.source = change' (n.erased scope.source))
    (hu : u.erased scope.source = a) :
    Gives scope ts (Parser.amend u change) fun v r =>
      v.erased scope.source = a.mapHead change' ∧ r = ts := by
  refine (amend u change).weaken ?_
  rintro _ _ ⟨rfl, rfl⟩
  obtain ⟨n, cs⟩ := u
  rw [Tree.mapHead, Tree.erased, h, ← hu, Tree.erased, Tree.mapHead]
  exact ⟨rfl, rfl⟩

theorem attach_erased (hu : u.erased scope.source = a) (hchild : child.erased scope.source = b) :
    Gives scope ts (Parser.attach u child) fun v r =>
      v.erased scope.source = a.append [b] ∧ r = ts := by
  refine (attach u child).weaken ?_
  rintro _ _ ⟨rfl, rfl⟩
  rw [Tree.erased_append, hu, Tree.erasedAll, hchild, Tree.erasedAll]
  exact ⟨rfl, rfl⟩

theorem finish_erased (hu : u.erased scope.source = a) :
    Gives scope ts (Parser.finish u) fun v r => v.erased scope.source = a ∧ r = ts := by
  refine (finish u).weaken ?_
  rintro _ _ ⟨⟨stop, rfl⟩, rfl⟩
  refine ⟨(Tree.erased_mapHead ?_ u).trans hu, rfl⟩
  exact fun _ => rfl

theorem tokenText_erased (hfits : scope.source.Fits) (hread : t.ReadFrom scope.source)
    (hname : t.isNamePart) :
    Gives scope ts (Parser.tokenText t) fun text r =>
      text.erased scope.source = .copied t.content ∧ r = ts := by
  have hblob : t.kind ≠ .blob := by
    intro hk
    simp [Token.isNamePart, Token.isName, Token.keyword?, hk] at hname
  refine (tokenText hfits hread).weaken ?_
  rintro text _ ⟨htext, rfl⟩
  rw [Text.erased, htext hblob]
  exact ⟨rfl, rfl⟩

theorem setText_erased (hfits : scope.source.Fits) (hread : t.ReadFrom scope.source)
    (hname : t.isNamePart) (hu : u.erased scope.source = a) :
    Gives scope ts (Parser.setText u t) fun v r =>
      v.erased scope.source = a.mapHead (fun n => { n with text := .copied t.content }) ∧
        r = ts := by
  refine (tokenText_erased hfits hread hname).bind ?_
  rintro text _ ⟨htext, rfl⟩
  refine amend_erased _ (fun n => ?_) hu
  rw [← htext]
  rfl

theorem namedNode_erased (hcontext : scope.context = none) (hfits : scope.source.Fits)
    (hread : t.ReadFrom scope.source) (hname : t.isNamePart) (kind : Kind) :
    Gives scope ts (Parser.namedNode kind t) fun u r =>
      u.erased scope.source = .leaf (.unplaced kind (.copied t.content)) ∧ r = ts := by
  refine (newNode_erased hcontext kind _ _).bind ?_
  rintro u _ ⟨hu, rfl⟩
  exact setText_erased hfits hread hname hu

end Parser.Gives

/-! ## Items -/

namespace Parser

variable {scope : Scope} {next : Parser (Option Tree)}

/-- With these tokens ahead, some items come one after the other, of which these facts hold. -/
inductive Items (scope : Scope) (next : Parser (Option Tree)) :
    List Token → List (Tree → Prop) → List Token → Prop
  | nil {ts : List Token} (h : Gives scope ts next fun o r => o = none ∧ r = ts) :
    Items scope next ts [] ts
  | cons {ts ts' rest : List Token} {P : Tree → Prop} {Ps : List (Tree → Prop)}
    (h : Gives scope ts next fun o r =>
      (∃ u, o = some u ∧ P (u.erased scope.source)) ∧ r = ts') (hless : ts'.length < ts.length)
    (hmore : Items scope next ts' Ps rest) : Items scope next ts (P :: Ps) rest

theorem Items.attachOver {ts rest : List Token} {Ps : List (Tree → Prop)}
    (h : Items scope next ts Ps rest) : ∀ {rounds : List Token} {u a : Tree},
      ts.length ≤ rounds.length → u.erased scope.source = a →
      Gives scope ts (iterateOver (fun parent => do
        match ← next with
        | some item => return some (← attach parent item)
        | none => return none) rounds u) fun v r =>
        (∃ bs, List.Forall₂ (fun P b => P b) Ps bs ∧ v.erased scope.source = a.append bs) ∧
          r = rest := by
  induction h with
  | nil h =>
    rintro rounds u a - rfl s hs
    obtain ⟨_, s', hrun, rfl, hs'⟩ := h s hs
    exact ⟨u, s', iterateOver_none (bind_ok hrun _) rounds, ⟨[], .nil, by
      obtain ⟨n, cs⟩ := u; simp [Tree.append, Tree.erased, Tree.head, Tree.children]⟩, hs'⟩
  | @cons ts ts' rest P Ps h hless _ ih =>
    rintro (_ | ⟨round, rounds⟩) u a hle hu
    · simp at hle
      simp [hle] at hless
    · have hstep : Gives scope ts (do
          match ← next with
          | some item => return some (← attach u item)
          | none => return none) fun o r =>
          (∃ v, o = some v ∧ ∃ b, P b ∧ v.erased scope.source = a.append [b]) ∧ r = ts' := by
        refine h.bind ?_
        rintro _ _ ⟨⟨item, rfl, hitem⟩, rfl⟩
        refine (Gives.attach_erased hu rfl).bind ?_
        rintro v _ ⟨hv, rfl⟩
        exact .pure ⟨⟨v, rfl, _, hitem, hv⟩, rfl⟩
      refine hstep.bind ?_
      rintro _ _ ⟨⟨v, rfl, b, hb, hv⟩, rfl⟩
      refine (ih (by simp at hle; omega) hv).weaken ?_
      rintro w _ ⟨⟨bs, hbs, hw⟩, rfl⟩
      exact ⟨⟨b :: bs, .cons hb hbs, by
        simpa [Tree.append, Tree.head, Tree.children] using hw⟩, rfl⟩

theorem Items.attachWhile {ts rest : List Token} {Ps : List (Tree → Prop)}
    (h : Items scope next ts Ps rest) {u a : Tree} (hu : u.erased scope.source = a) :
    Gives scope ts (attachWhile next u) fun v r =>
      (∃ bs, List.Forall₂ (fun P b => P b) Ps bs ∧ v.erased scope.source = a.append bs) ∧
        r = rest :=
  .iterate (h.attachOver (Nat.le_refl _) hu)

end Parser

theorem Tree.unruled_erased (source : Source) (u : Tree) :
    (u.erased source).Unruled ↔ u.Unruled := by
  rw [Unruled, shape_erased, Unruled]

end SqlSyntax
