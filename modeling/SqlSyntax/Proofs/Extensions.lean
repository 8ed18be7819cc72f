import SqlSyntax.Proofs.EntryPoints
import SqlSyntax.Proofs.Pairing.Same

/-!
# Sources without extensions

Casts by a sign are an extension, and so are some statements. Statements stand below others, and
casts in every expression, so a run is followed step by step by comparing it with itself
(`Pairing.core`): without extensions no step takes the sign of a cast, and none makes the node of
such a statement.
-/

namespace SqlSyntax

open SqlSyntax.Parser

/-- No statement in the tree is an extension. -/
def Tree.IsCore (t : Tree) : Prop := t.Everywhere (·.kind.isExtension = false)

/-- The last tokens of a source are left, and no sign of a cast is among those before them. -/
def UncastUpTo (source : Source) (left : List Token) : Prop :=
  ∃ taken, taken ++ left = tokenize source ∧ ∀ t ∈ taken, t.kind ≠ .doubleColon

namespace UncastUpTo

variable {source : Source} {t : Token} {left : List Token}

theorem start (source : Source) : UncastUpTo source (tokenize source) := ⟨[], rfl, nofun⟩

theorem next (h : UncastUpTo source (t :: left)) (ht : t.kind ≠ .doubleColon) :
    UncastUpTo source left := by
  obtain ⟨taken, heq, htaken⟩ := h
  refine ⟨taken ++ [t], by simp [heq], fun u hu => ?_⟩
  rcases List.mem_append.1 hu with hu | hu
  · exact htaken u hu
  · rwa [List.mem_singleton.1 hu]

/-- Once all tokens are taken, none of them was the sign of a cast. -/
theorem all (h : UncastUpTo source []) : ∀ t ∈ tokenize source, t.kind ≠ .doubleColon := by
  obtain ⟨taken, heq, htaken⟩ := h
  rw [List.append_nil] at heq
  rwa [← heq]

end UncastUpTo

namespace Pairing

variable {source : Source} {config : Config}

/-- A run over a source and itself, with an eye on what is an extension. -/
def core (source : Source) (config : Config) : Pairing :=
  same source config config (fun t _ => t.IsCore) Eq (UncastUpTo source) True

theorem core_takes (hoff : config.allowExtensions = false) : (core source config).Takes where
  takes_plain _ hk hfine := hfine.next fun h => by simp [h, TokenKind.isPlain] at hk
  takes_name _ hk _ hfine := hfine.next (by simp [hk])
  takes_call _ hk _ hfine := hfine.next (by simp [hk])
  takes_operator _ hk _ hfine := hfine.next (by rcases hk with hk | hk <;> simp [hk])
  takes_sign _ hk _ hfine := hfine.next (by simp [hk])
  takes_cast _ _ _ hon _ := by
    have hon : config.allowExtensions = true := hon
    simp [hoff] at hon
  sets _ _ _ := trivial

theorem core_leaf {n : Node} (hk : n.kind.isExtension = true → config.allowExtensions = true)
    (hoff : config.allowExtensions = false) : (Tree.leaf n).IsCore := by
  refine .leaf (Bool.eq_false_iff.2 fun h => ?_)
  simp [hk h] at hoff

theorem core_root {k : Kind} {t t' : Tree} (ht : (core source config).Made k t t') :
    t.kind.isExtension = false := ht.tree.root

theorem core_builds (hoff : config.allowExtensions = false) : (core source config).Builds where
  next _ := trivial
  leaf _ _ _ _ hk := core_leaf hk hoff
  spans _ _ _ _ hk := core_leaf (fun h => by simp [Kind.isCommon, h] at hk) hoff
  amend {k t _ change _} h ht := by
    refine ht.tree.mapHead ?_
    have hroot := core_root ht
    obtain ⟨n, cs⟩ := t
    show (change n).kind.isExtension = false
    rw [(h.kind n).1]
    exact hroot
  attach {_ t _ _ _} ht hc := ht.tree.append hc.1 (core_root (t := t) ht)
  prepend {_ t _ _ _} ht hc := ht.tree.prepend hc.1 (core_root (t := t) ht)
  enclosed {_ _ u _ _ _ _ _} _ _ hu _ _ := by
    obtain ⟨hcore, hoperand⟩ := hu
    unfold Expression.surrounded
    split
    · obtain ⟨n, cs⟩ := u
      exact ⟨hcore.mapHead hcore.root, hoperand⟩
    · refine ⟨Tree.everywhere_node.2 ⟨rfl, ?_⟩, rfl⟩
      exact List.forall_mem_singleton.2 hcore
  enclosed_next _ := trivial

theorem core_lawful (hoff : config.allowExtensions = false) : (core source config).Lawful :=
  { same_reads_eq rfl rfl rfl rfl, core_takes hoff, core_builds hoff with }

end Pairing

namespace Script

/-- A run over a script without extensions takes no sign of a cast and makes no statement that is
an extension. -/
theorem all_core (scope : Scope) (hoff : scope.config.allowExtensions = false) {s p : Progress}
    {roots : List Tree} (hs : s.rest = tokenize scope.source) (h : all scope s = .ok roots p) :
    (∀ t ∈ tokenize scope.source, t.kind ≠ .doubleColon) ∧ ∀ t ∈ roots, t.IsCore := by
  have hfine : UncastUpTo scope.source s.rest := hs ▸ .start scope.source
  have hout := all_alike (Pairing.core_lawful hoff) scope scope s s
    ⟨rfl, rfl, rfl, rfl, rfl, rfl, rfl⟩ (Pairing.same_meets s s hs hs rfl rfl rfl) hfine trivial
  rw [h] at hout
  obtain ⟨hroots, hend, -, hfine, -⟩ := hout
  refine ⟨(hend ▸ hfine).all, fun t ht => ?_⟩
  exact (List.forall₂_same.1 hroots t ht).tree

end Script

namespace Session

/-- A session without extensions accepts no source with the sign of a cast, and its trees have no
statement that is an extension, however deep below other statements. -/
theorem accepts_no_extension (s : Session) (hoff : s.config.allowExtensions = false)
    (source : Source) :
    (∀ root, (s.parse source).1 = .ok root →
      (∀ t ∈ tokenize source, t.kind ≠ .doubleColon) ∧
        ∀ u ∈ root.preorder, u.kind.isExtension = false) ∧
    ∀ roots, (s.parseScript source).1 = .ok roots →
      (∀ t ∈ tokenize source, t.kind ≠ .doubleColon) ∧
        ∀ root ∈ roots, ∀ u ∈ root.preorder, u.kind.isExtension = false := by
  refine ⟨fun root h => ?_, fun roots h => ?_⟩
  · rw [parse_eq] at h
    rcases hsingle : Script.single (s.scope .one source) (s.start (tokenize source)) with
      ⟨found, q⟩ | ⟨f, q⟩ <;> rw [hsingle] at h
    · obtain rfl := checked_eq h
      obtain ⟨htokens, hroots⟩ :=
        Script.all_core (s.scope .one source) hoff rfl (Script.single_iff_all.1 hsingle)
      exact ⟨htokens, hroots root (List.mem_singleton_self root)⟩
    · cases h
  · rw [parseScript_eq] at h
    rcases hall : Script.all (s.scope .script source) (s.start (tokenize source)) with
      ⟨found, q⟩ | ⟨f, q⟩ <;> rw [hall] at h
    · obtain rfl := mapM_checked_eq h
      exact Script.all_core (s.scope .script source) hoff rfl hall
    · cases h

/-- An explained trigger that deletes. -/
theorem accepts_no_extension_trigger :
    ({ config := { allowExtensions := false } } : Session).config.allowExtensions = false ∧
    ∃ roots, (({ config := { allowExtensions := false } } : Session).parseScript
        "EXPLAIN CREATE TRIGGER r AFTER INSERT ON t BEGIN DELETE FROM u; END".toList).1 =
          .ok roots ∧
      ∀ root ∈ roots, ∀ u ∈ root.preorder, u.kind.isExtension = false := by
  have hok : (({ config := { allowExtensions := false } } : Session).parseScript
      "EXPLAIN CREATE TRIGGER r AFTER INSERT ON t BEGIN DELETE FROM u; END".toList).1.isOk := by
    decide +kernel
  rcases hroots : (({ config := { allowExtensions := false } } : Session).parseScript
      "EXPLAIN CREATE TRIGGER r AFTER INSERT ON t BEGIN DELETE FROM u; END".toList).1 with
    f | roots
  · rw [hroots] at hok
    cases hok
  · have h := (accepts_no_extension { config := { allowExtensions := false } } rfl _).2 roots hroots
    exact ⟨rfl, roots, rfl, h.2⟩

end Session

end SqlSyntax
