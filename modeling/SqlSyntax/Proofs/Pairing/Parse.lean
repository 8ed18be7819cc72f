import SqlSyntax.Proofs.EntryPoints
import SqlSyntax.Proofs.Pairing.Schema

/-!
# Two parses

Two sessions parse two sources whose tokens are alike. Their runs go the same way, so both fail, or
both go on to check like trees.
-/

namespace SqlSyntax

namespace Session

variable {W : Pairing}

/-- What two parses come to whose runs are alike. -/
theorem parse_alike (hW : W.Lawful) {s s' : Session} (hs : s.config = W.config)
    (hs' : s'.config = W.config') (hstack : s.stack .one = s'.stack .one)
    (hlisted : List.Forall₂ W.listed (tokenize W.source) (tokenize W.source'))
    (hstop : W.stop 0 0) (hnumber : W.number 0 0) (hfine : W.fine (tokenize W.source)) :
    (∃ f f', (s.parse W.source).1 = .error (f.withSource W.source) ∧
        (s'.parse W.source').1 = .error (f'.withSource W.source') ∧ W.fails f f') ∨
      ∃ root root', (s.parse W.source).1 = checked W.source W.config.mode root ∧
        (s'.parse W.source').1 = checked W.source' W.config'.mode root' ∧ W.tree root root' := by
  have hout := Script.single_alike hW (s.scope .one W.source) (s'.scope .one W.source')
    (s.start (tokenize W.source)) (s'.start (tokenize W.source'))
    ⟨rfl, rfl, hs, hs', hstack, rfl, rfl⟩ ⟨hlisted, rfl, hstop, rfl, hnumber⟩ hfine trivial
  rw [parse_eq, parse_eq, hs, hs']
  rcases hrun : Script.single (s.scope .one W.source) (s.start (tokenize W.source)) with
      ⟨root, r⟩ | ⟨f, r⟩ <;>
    rcases hrun' : Script.single (s'.scope .one W.source') (s'.start (tokenize W.source')) with
      ⟨root', r'⟩ | ⟨f', r'⟩ <;>
    rw [hrun, hrun'] at hout
  · obtain ⟨⟨k, -, hroot⟩, -⟩ := hout
    exact .inr ⟨root, root', rfl, rfl, hroot.tree⟩
  · exact hout.elim
  · exact hout.elim
  · exact .inl ⟨f, f', rfl, rfl, hout.1⟩

end Session

end SqlSyntax
