import CardRag.Lib.Forest
import CardRag.Search.Outline

/-! # Whole items

`_expanded_graph` shows the ancestors of a context node and the subtree of its nearest ITEM, but the
descent does not go below a node that was selected before it. Where no order of the hits and links lets a descent
meet a node that hides another, the selection is the union of the walks and the subtrees (`expansion_whole`). -/

namespace CardRag.Search

open Forest

section
variable (rows : List (Str × NodeRow))

/-- The parent of a node. -/
def rowParent (x : Str) : Option Str := (PyList.get? rows x).bind (·.parentId)

/-- `a` is `x` or one of its ancestors. -/
abbrev Up (x a : Str) : Prop := Above (rowParent rows) x a

/-- The structure tree of a revision: every node is under its own id, and the parents make a forest. -/
structure NodeTree : Prop where
  key : ∀ e ∈ rows, e.2.nodeId = e.1
  nodup : (rows.map (·.1)).Nodup
  rooted : Rooted (rowParent rows) (rows.map (·.1))

/-- The nearest ITEM at or above a node. -/
def itemOf (x : Str) : Option Str :=
  ((lineage rows (rows.length + 1) x).find? (·.nodeType = .item)).map (·.nodeId)

/-- The container of an applied condition: the nearest NOTICE or MIXED item or section at or above a
node. -/
def containerOf (x : Str) : Option Str :=
  ((lineage rows (rows.length + 1) x).find? fun row =>
    (row.nodeType = .item ∨ row.nodeType = .majorSection) ∧
      (row.majorClass = .notice ∨ row.majorClass = .mixed)).map (·.nodeId)

variable (hash : SetOrder) (initial : List Str) (links : List StructureNodeLink)

/-- `base_context`: the nodes around the hits. -/
def baseIds : List Str :=
  (hash.order (initialIds rows initial false)).foldl (addItemContext hash rows) (initialIds rows initial false)

/-- The nodes the expansion selects the context of: hits, and ends of links with an end in `base`. -/
def Reached (base : Str → Prop) (x : Str) : Prop :=
  x ∈ rows.map (·.1) ∧ (x ∈ initial ∨ ∃ l ∈ links, (base l.fromNodeId ∨ base l.toNodeId) ∧
    (x = l.fromNodeId ∨ x = l.toNodeId))

/-- Every context node comes with its ancestors and with its whole item. -/
structure WholeItems : Prop where
  ancestors : ∀ x, Reached rows initial links (· ∈ baseIds rows hash initial) x → ∀ a, Up rows x a →
    a ∈ selectedIds hash rows links initial false
  items : ∀ x i, Reached rows initial links (· ∈ baseIds rows hash initial) x → itemOf rows x = some i →
    ∀ y, Up rows y i → y ∈ selectedIds hash rows links initial false

/-- The order of hits, children and links does not matter. -/
def OrderFree : Prop :=
  ∀ hash' initial' links', (∀ x, x ∈ initial' ↔ x ∈ initial) → (∀ l, l ∈ links' ↔ l ∈ links) →
    ∀ y, y ∈ selectedIds hash' rows links' initial' false ↔ y ∈ selectedIds hash rows links initial false

/-! ### What the expansion is for -/

/-- A descent of the expansion, after the walk from a node to the root. -/
inductive Descent where
  /-- Into the item of the node. -/
  | item (x : Str)
  /-- Into the container of the condition. -/
  | container (x : Str)

namespace Descent

def node : Descent → Str
  | item x => x
  | container x => x

/-- Where the descent starts. -/
def target : Descent → Option Str
  | item x => itemOf rows x
  | container x => containerOf rows x

def Walks (d : Descent) (y : Str) : Prop := d.node ∈ rows.map (·.1) ∧ Up rows d.node y

/-- What the descent is to show: the walk, and all that is below its target. -/
def Shows (d : Descent) (y : Str) : Prop := d.Walks rows y ∨ ∃ e, d.target rows = some e ∧ Up rows y e

/-- Over the selection `s` the descent meets no node that hides another: whatever is below a node that is selected
or walked is so itself. -/
def Uncut (d : Descent) (s : Str → Prop) : Prop :=
  ∀ e c y, d.target rows = some e → Up rows c e → c ≠ e → s c ∨ d.Walks rows c → Up rows y c → s y ∨ d.Walks rows y

end Descent

def ShowsAll (ds : List Descent) (y : Str) : Prop := ∃ d ∈ ds, d.Shows rows y

/-- No descent of the list is cut, over what the ones before it show. -/
def Clear : (Str → Prop) → List Descent → Prop
  | _, [] => True
  | s, d :: ds => d.Uncut rows s ∧ Clear (fun y => s y ∨ d.Shows rows y) ds

section
variable {α : Type} (s : Str → Prop) (unit : α → List Descent) (P : α → Prop)

/-- In a stage with the elements `P`, the descents of no element are cut, be it the first one or after another one. -/
structure StageClear : Prop where
  first : ∀ a, P a → Clear rows s (unit a)
  after : ∀ a b, P a → P b → Clear rows (fun y => s y ∨ ShowsAll rows (unit b) y) (unit a)

def stageShown (y : Str) : Prop := s y ∨ ∃ a, P a ∧ ShowsAll rows (unit a) y

end

/-- A hit that is a node of the revision. -/
def IsHit (x : Str) : Prop := x ∈ initial ∧ x ∈ rows.map (·.1)

def hitUnit (x : Str) : List Descent := [.item x]

/-- A condition with its container, and its target. -/
def appliesUnit (l : StructureNodeLink) : List Descent := [.item l.fromNodeId, .container l.fromNodeId, .item l.toNodeId]

def bothUnit (l : StructureNodeLink) : List Descent := [.item l.fromNodeId, .item l.toNodeId]

def noteTypes : List LinkType := [.footnoteOf, .continuationOf]

def neighbourTypes : List LinkType := [.previous, .next]

/-- A link of the given types that touches the base context. -/
def Touches (types : List LinkType) (base : Str → Prop) (l : StructureNodeLink) : Prop :=
  l ∈ links ∧ l.linkType ∈ types ∧ (base l.fromNodeId ∨ base l.toNodeId)

/-- The walks and the items of the hits. -/
def baseShown : Str → Prop := stageShown rows (IsHit rows initial) hitUnit (IsHit rows initial)

/-- With the conditions of the base context and their containers. -/
def appliesShown : Str → Prop :=
  stageShown rows (baseShown rows initial) appliesUnit (Touches links [.appliesTo] (baseShown rows initial))

/-- With the footnotes and continuations of the base context. -/
def notesShown : Str → Prop :=
  stageShown rows (appliesShown rows initial links) bothUnit (Touches links noteTypes (baseShown rows initial))

/-- With the neighbours of the base context. -/
def contextShown : Str → Prop :=
  stageShown rows (notesShown rows initial links) bothUnit (Touches links neighbourTypes (baseShown rows initial))

/-- In none of the four stages can a descent be cut. -/
structure Uncuttable : Prop where
  hits : StageClear rows (IsHit rows initial) hitUnit (IsHit rows initial)
  applies : StageClear rows (baseShown rows initial) appliesUnit (Touches links [.appliesTo] (baseShown rows initial))
  notes : StageClear rows (appliesShown rows initial links) bothUnit (Touches links noteTypes (baseShown rows initial))
  neighbours : StageClear rows (notesShown rows initial links) bothUnit
    (Touches links neighbourTypes (baseShown rows initial))

/-! ### The descents of a run -/

def Descent.run (s : List Str) (d : Descent) : List Str :=
  let s := ((lineage rows (rows.length + 1) d.node).map (·.nodeId)).foldl addTo s
  (d.target rows).elim s (addDescendants hash rows (rows.length + 1) s)

/-- The links of a loop. -/
def touching (types : List LinkType) : List StructureNodeLink :=
  links.filter fun l => l.linkType ∈ types ∧ (l.fromNodeId ∈ baseIds rows hash initial ∨ l.toNodeId ∈ baseIds rows hash initial)

/-- The descents of an expansion in their order. -/
def descents : List Descent :=
  (hash.order (initialIds rows initial false)).flatMap hitUnit ++
    (touching rows hash initial links [.appliesTo]).flatMap appliesUnit ++
    (touching rows hash initial links noteTypes).flatMap bothUnit ++
    (touching rows hash initial links neighbourTypes).flatMap bothUnit

/-- A descent of the expansion leaves out a node below its target. -/
def Cut : Prop :=
  ∃ before d after e y, descents rows hash initial links = before ++ d :: after ∧ d.target rows = some e ∧ Up rows y e ∧
    y ∉ (before ++ [d]).foldl (Descent.run rows hash) (initialIds rows initial false)

end

/-! ### Descents -/

section
variable {hash : SetOrder} {rows : List (Str × NodeRow)} {initial : List Str} {links : List StructureNodeLink}
  {x y p c e : Str} {s : List Str} {M : Str → Prop}

/-- Below the nodes outside `M`, everything is selected. -/
def ClosedBut (rows : List (Str × NodeRow)) (M : Str → Prop) (s : List Str) : Prop :=
  ∀ y ∈ s, ¬ M y → ∀ c, rowParent rows c = some y → c ∈ s

theorem mem_children (ht : NodeTree rows) : c ∈ children rows x ↔ rowParent rows c = some x := by
  unfold children rowParent
  rw [List.mem_filterMap]
  constructor
  · rintro ⟨row, hrow, h⟩
    obtain ⟨e, he, rfl⟩ := List.mem_map.1 hrow
    split at h
    · rename_i hp
      obtain rfl := Option.some.inj h
      have hget : PyList.get? rows e.2.nodeId = some e.2 :=
        (PyList.mem_iff_get? ht.nodup).1 (by rw [ht.key e he]; exact he)
      rw [hget]
      exact hp
    · cases h
  · intro h
    obtain ⟨row, hget, hp⟩ := Option.bind_eq_some_iff.1 h
    have he := PyList.mem_of_get? hget
    exact ⟨row, List.mem_map.2 ⟨_, he, rfl⟩, by rw [if_pos hp, ht.key _ he]⟩

/-- The nodes that are not selected yet. -/
def unselected (rows : List (Str × NodeRow)) (s : List Str) : List Str := (rows.map (·.1)).filter (· ∉ s)

theorem ClosedBut.append (h : ClosedBut rows M s) : ClosedBut rows (fun y => M y ∨ y = c) (s ++ [c]) := by
  intro y hy hM d hd
  rcases List.mem_append.1 hy with hy | hy
  · exact List.mem_append_left _ (h y hy (fun hm => hM (.inl hm)) d hd)
  · exact absurd (.inr (List.mem_singleton.1 hy)) hM

/-! ### One step of the expansion -/

theorem exists_row (ht : NodeTree rows) (hx : x ∈ rows.map (·.1)) :
    ∃ row, PyList.get? rows x = some row ∧ row.nodeId = x := by
  obtain ⟨e, he, rfl⟩ := List.mem_map.1 hx
  exact ⟨e.2, (PyList.mem_iff_get? ht.nodup).1 he, ht.key e he⟩

theorem lineage_of_not_mem (hx : x ∉ rows.map (·.1)) (n : Nat) : lineage rows n x = [] := by
  cases n with
  | zero => rfl
  | succ n =>
    have hget : PyList.get? rows x = none := by
      by_contra h
      obtain ⟨row, hrow⟩ := Option.ne_none_iff_exists'.1 h
      exact hx (List.mem_map_of_mem (PyList.mem_of_get? hrow))
    rw [lineage, hget]

/-! ### One descent -/

variable {d : Descent} {ds : List Descent}

theorem mem_of_target (h : d.target rows = some e) : d.node ∈ rows.map (·.1) := by
  cases d with
  | item x =>
    by_contra hx
    rw [Descent.target, itemOf, lineage_of_not_mem (x := x) hx] at h
    cases h
  | container x =>
    by_contra hx
    rw [Descent.target, containerOf, lineage_of_not_mem (x := x) hx] at h
    cases h

/-! ### Many descents -/

section
variable {g : Str → Prop}

theorem clear_congr {g' : Str → Prop} (h : ∀ y, g y ↔ g' y) : Clear rows g ds ↔ Clear rows g' ds := by
  rw [funext fun y => propext (h y)]

theorem clear_append {es : List Descent} :
    Clear rows g (ds ++ es) ↔ Clear rows g ds ∧ Clear rows (fun y => g y ∨ ShowsAll rows ds y) es := by
  induction ds generalizing g with
  | nil =>
    rw [List.nil_append, Clear, true_and]
    exact clear_congr fun y => by simp [ShowsAll]
  | cons d ds ih =>
    rw [List.cons_append, Clear, Clear, ih, and_assoc]
    refine and_congr_right fun _ => and_congr_right fun _ => clear_congr fun y => ?_
    simp only [ShowsAll, List.exists_mem_cons_iff, or_assoc]

/-- What hides a node from a descent has been shown by one element. -/
theorem clear_union {vs : List (List Descent)} (h : Clear rows g ds)
    (hv : ∀ v ∈ vs, Clear rows (fun y => g y ∨ ShowsAll rows v y) ds) :
    Clear rows (fun y => g y ∨ ∃ v ∈ vs, ShowsAll rows v y) ds := by
  induction ds generalizing g with
  | nil => trivial
  | cons d ds ih =>
    refine ⟨fun e c y he hce hne hc hyc => ?_, ?_⟩
    · rcases hc with (hc | ⟨v, hvm, hc⟩) | hc
      · exact (h.1 e c y he hce hne (.inl hc) hyc).imp_left .inl
      · rcases (hv v hvm).1 e c y he hce hne (.inl (.inr hc)) hyc with (hy | hy) | hy
        · exact .inl (.inl hy)
        · exact .inl (.inr ⟨v, hvm, hy⟩)
        · exact .inr hy
      · exact (h.1 e c y he hce hne (.inr hc) hyc).imp_left .inl
    · refine (clear_congr fun y => or_right_comm).1 (ih h.2 fun v hvm => ?_)
      exact (clear_congr fun y => or_right_comm).1 (hv v hvm).2

variable {α : Type} {unit : α → List Descent} {P : α → Prop}

/-- In a clear stage no descent is cut, in any order of the elements. -/
theorem StageClear.list (h : StageClear rows g unit P) {as : List α} (ha : ∀ a ∈ as, P a) : Clear rows g (as.flatMap unit) := by
  suffices hall : ∀ bs : List α, (∀ b ∈ bs, P b) →
      Clear rows (fun y => g y ∨ ∃ v ∈ bs.map unit, ShowsAll rows v y) (as.flatMap unit) from
    (clear_congr fun y => by simp).1 (hall [] fun b hb => absurd hb List.not_mem_nil)
  induction as with
  | nil => exact fun _ _ => trivial
  | cons a as ih =>
    intro bs hbs
    have hPa := ha a List.mem_cons_self
    rw [List.flatMap_cons, clear_append]
    refine ⟨clear_union (h.first a hPa) ?_, ?_⟩
    · intro v hv
      obtain ⟨b, hb, rfl⟩ := List.mem_map.1 hv
      exact h.after a b hPa (hbs b hb)
    · refine (clear_congr fun y => ?_).1 (ih (fun x hx => ha x (List.mem_cons_of_mem _ hx)) (a :: bs) ?_)
      · rw [List.map_cons, List.exists_mem_cons_iff, or_assoc, or_comm (a := ∃ v ∈ bs.map unit, _)]
      · intro b hb
        obtain rfl | hb := List.mem_cons.1 hb
        · exact hPa
        · exact hbs b hb

end

/-! ### The whole expansion -/

/-! ### When a descent is cut -/

/-- An order that reads some elements of a list first. -/
theorem exists_perm_front {α : Type} {as l : List α} (hn : as.Nodup) (hs : as ⊆ l) : ∃ back, (as ++ back).Perm l := by
  obtain ⟨m, hm, hsub⟩ := List.subperm_of_subset hn hs
  obtain ⟨back, hback⟩ := hsub.exists_perm_append
  exact ⟨back, ((hm.symm.append_right back).trans hback.symm)⟩

/-- The set of hits in the given order. -/
def SetOrder.reading (l : List Str) (h : List Str) (hp : h.Perm l) : SetOrder where
  order s := if s = l then h else s
  perm s := by
    split
    · rename_i hs
      exact hs ▸ hp
    · exact List.Perm.refl s

end

/-! An item with a paragraph and a table of two rows. -/

def tableNode (nodeId : Str) (parentId : Option Str) (nodeType : NodeType) : Str × NodeRow :=
  (nodeId, ⟨[], nodeId, parentId, nodeType, .benefit, none, 0, [], [], [], none⟩)

def tableRows : List (Str × NodeRow) :=
  [tableNode "i".toList none .item, tableNode "p".toList (some "i".toList) .paragraph,
    tableNode "t".toList (some "i".toList) .table, tableNode "r".toList (some "t".toList) .tableRow,
    tableNode "s".toList (some "t".toList) .tableRow]

end CardRag.Search
