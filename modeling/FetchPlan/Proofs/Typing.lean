import FetchPlan.Proofs.Resolution
import FetchPlan.Proofs.Reach

/-! The shape of requested paths as their typed image. Every node is typed by the field it stands for
on the entity where it was resolved, siblings come in the order in which the paths mention them first,
and the leaves are the paths that the selection lists. -/
namespace FetchPlan

namespace FieldNode

/-- The shape below a node; a leaf has none. -/
def children : FieldNode → List FieldNode
  | .column .. | .virtual _ => []
  | .object _ _ children | .array _ _ children => children

/-- The nodes of every level are the first segments of its paths, in order of first appearance. The
paths of the level below a node are what is left of them behind it. -/
inductive Ordered : List FieldPath → List FieldNode → Prop where
  | level : nodes.map name = distinct (ps.filterMap List.head?) →
      (∀ node ∈ nodes, Ordered (below [node.name] ps) node.children) → Ordered ps nodes

theorem ordered_nil : Ordered [] [] := .level rfl nofun

end FieldNode

/-- Paths through two relations in turn, with one path twice and the undeclared `uuid` at two places. -/
def Sample.jumbledPaths : List String :=
  ["name", "files.folder.uuid", "parent.id", "files.url", "name", "uuid"]

namespace Registry

variable {r : Registry}

theorem Shapes.ordered (shapes : r.Shapes e ps nodes) : FieldNode.Ordered ps nodes := by
  induction ps using below_induction generalizing e nodes with
  | step ps ih =>
    refine .level shapes.names fun node member => ?_
    obtain ⟨rest, asked⟩ := shapes.exists_rest member
    have inside {t : Entity} (under : r.Shapes t (below [node.name] ps) node.children) :
        FieldNode.Ordered (below [node.name] ps) node.children :=
      ih [node.name] rest (by simp) asked under
    have atLeaf (leaf : e.relation? node.name = none) : FieldNode.Ordered (below [node.name] ps) [] := by
      rw [below_eq_nil leaf (exists_shapes_iff.mp ⟨nodes, shapes⟩)]
      exact FieldNode.ordered_nil
    rcases shapes.fits.of_mem member with ⟨name, _, _, _, column, rfl⟩ | ⟨name, virtual, rfl⟩ |
      ⟨relation, t, children, _, _, _, ⟨_, rfl⟩ | ⟨_, rfl⟩⟩
    · have resolves : r.Resolves e [name] := .column (by rw [column]; rfl)
      exact atLeaf resolves.relation?_eq_none
    · have resolves : r.Resolves e [name] := .virtual virtual
      exact atLeaf resolves.relation?_eq_none
    · obtain ⟨t, _, under⟩ := shapes.under (.inl member)
      exact inside under
    · obtain ⟨t, _, under⟩ := shapes.under (.inr member)
      exact inside under

/-- A shape has the paths of the selection for its leaves, every node is what its entity declares, and
siblings are ordered by first appearance. -/
theorem resolvePaths_typed (resolved : r.resolvePaths e paths = .ok nodes) :
    ∃ s, Selection.parse e.id paths = .ok s ∧ (FieldNode.leaves nodes).map FieldPath.dotted = s.paths ∧
      r.Fits e nodes ∧ FieldNode.Ordered (requested paths) nodes := by
  have shapes := (resolvePaths_ok resolved).2
  obtain ⟨s, parsed, resolved⟩ := bind_eq_ok.mp resolved
  obtain ⟨_, rfl⟩ := Selection.parse_eq_ok_iff.mp parsed
  have leaves := (resolveEntries_fits (Selection.wellFormed_ofPaths _) resolved).2.1
  exact ⟨_, parsed, by rw [leaves, Selection.paths], shapes.fits, shapes.ordered⟩

theorem resolvePaths_typed_sample : ∃ nodes s,
    Sample.cabinet.resolvePaths Sample.folder Sample.jumbledPaths = .ok nodes ∧
      nodes.map FieldNode.name = ["name", "files", "parent", "uuid"] ∧
      Selection.parse "Folder" Sample.jumbledPaths = .ok s ∧
      s.paths = ["name", "files.folder.uuid", "files.url", "parent.id", "uuid"] ∧
      (FieldNode.leaves nodes).map FieldPath.dotted = s.paths ∧
      Sample.cabinet.Fits Sample.folder nodes ∧
      FieldNode.Ordered (requested Sample.jumbledPaths) nodes := by
  obtain ⟨nodes, resolved, names⟩ := exists_ok (show
    Option.any (fun nodes => nodes.map FieldNode.name = ["name", "files", "parent", "uuid"])
      (Sample.cabinet.resolvePaths Sample.folder Sample.jumbledPaths).toOption = true by decide +kernel)
  obtain ⟨s, parsed, leaves, typed⟩ := resolvePaths_typed resolved
  have listed : s.paths = ["name", "files.folder.uuid", "files.url", "parent.id", "uuid"] := by
    obtain ⟨_, rfl⟩ := Selection.parse_eq_ok_iff.mp parsed
    decide +kernel
  exact ⟨nodes, s, resolved, of_decide_eq_true names, parsed, listed, leaves, typed⟩

end Registry
end FetchPlan
