import CardRag.Lib.Forest
import CardRag.Search.Graph

/-! # Clause groups (`compact.py`)

`clause_group` starts from a node, takes its ancestors and the subtree of its clause, and follows the
semantic links of the nodes until nothing is added. -/

namespace CardRag.Search

/-- The order in which the interpreter iterates over a set of links. -/
structure LinkOrder where
  order : List StructureNodeLink → List StructureNodeLink
  perm : ∀ s, (order s).Perm s

/-- `selected` and `substantive`. -/
structure Group where
  selected : List Str
  substantive : List Str

section
variable (hash : SetOrder) (nodes : List ContextNode)

def nodeIds : List Str := nodes.map (·.nodeId)

/-- `by_id.get(nodeId)`. -/
def nodeById (nodeId : Str) : Option ContextNode := PyList.get? (PyList.dictOf (·.nodeId) nodes) nodeId

/-- `children[nodeId]`. -/
def childIds (nodeId : Str) : List Str := ((nodes.filter (·.parentId = some nodeId)).map (·.nodeId)).dedup

/-- The walk of `add` from a node to its last known ancestor. -/
def walk : Nat → Str → List ContextNode
  | 0, _ => []
  | n + 1, current =>
    match nodeById nodes current with
    | none => []
    | some node => node :: node.parentId.elim [] (walk n)

/-- `nearest_item or nearest_table or node_id`; an empty id would count as none. -/
def clauseStart (path : List ContextNode) (nodeId : Str) : Str :=
  let nearest (nodeType : NodeType) : Option Str :=
    ((path.find? (·.nodeType = nodeType)).map (·.nodeId)).filter (· ≠ [])
  ((nearest .item).or (nearest .table)).getD nodeId

/-- The loop over `pending`, whose last element is the head here. -/
def descend : Nat → List Str → Group → Group
  | 0, _, g => g
  | _ + 1, [], g => g
  | n + 1, current :: pending, g =>
    if current ∈ g.substantive then descend n pending g
    else descend n ((hash.order (childIds nodes current)).reverse ++ pending)
      ⟨addTo g.selected current, g.substantive ++ [current]⟩

def Group.add (g : Group) (nodeId : Str) : Group :=
  if nodeId ∈ nodeIds nodes then
    let path := walk nodes (nodes.length + 1) nodeId
    descend hash nodes (nodes.length + 1) [clauseStart path nodeId]
      ⟨(path.map (·.nodeId)).foldl addTo g.selected, g.substantive⟩
  else g

/-- The loop body. -/
def Group.follow (g : Group) (link : StructureNodeLink) : Group :=
  if link.linkType = .appliesTo ∧ link.toNodeId ∈ g.selected then g.add hash nodes link.fromNodeId
  else if (link.linkType = .footnoteOf ∨ link.linkType = .continuationOf) ∧
      (link.fromNodeId ∈ g.substantive ∨ link.toNodeId ∈ g.substantive) then
    (g.add hash nodes link.fromNodeId).add hash nodes link.toNodeId
  else g

/-- The outer loop; every round but the last makes a node substantive. -/
def Group.grow (links : List StructureNodeLink) : Nat → Group → Group
  | 0, g => g
  | n + 1, g =>
    let g' := links.foldl (Group.follow hash nodes) g
    if g'.substantive.length = g.substantive.length then g' else Group.grow links n g'

/-- A node with its links inside a set of ids. -/
def ContextNode.keepLinks (node : ContextNode) (keep : Str → Bool) : ContextNode :=
  { node with links := node.links.filter fun l => keep l.fromNodeId && keep l.toNodeId }

/-- The links of the nodes, each once. -/
def allLinks : List StructureNodeLink := (nodes.flatMap (·.links)).dedup

def clauseGroup (linkOrder : LinkOrder) (initialId : Str) : List ContextNode :=
  match nodeById nodes initialId with
  | none => []
  | some seed =>
    if seed.nodeType = .root ∨ seed.nodeType = .majorSection then []
    else
      let links := linkOrder.order (allLinks nodes)
      let g := Group.grow hash nodes links (nodes.length + 1) (Group.add hash nodes ⟨[], []⟩ initialId)
      (nodes.filter (·.nodeId ∈ g.selected)).map (·.keepLinks (· ∈ g.selected))

/-! ### The tree -/

/-- The parent of a node, if it is a known node. -/
def parentOf (nodeId : Str) : Option Str := ((nodeById nodes nodeId).bind (·.parentId)).filter (· ∈ nodeIds nodes)

/-- The nodes of a structure tree, or of a part of one: known ids are distinct and not empty, and no
node is its own ancestor. -/
structure ClauseTree : Prop where
  ids : (nodeIds nodes).Nodup
  ne : ∀ n ∈ nodes, n.nodeId ≠ []
  ranked : ∃ depth : Str → Nat, ∀ n ∈ nodes, ∀ p ∈ n.parentId, p ∈ nodeIds nodes → depth p < depth n.nodeId

/-- `a` is the node `x` or one of its known ancestors. -/
abbrev AtOrAbove (x a : Str) : Prop := Forest.Above (parentOf nodes) x a

/-- The nearest item of a node, or else its nearest table, or else the node. -/
def clauseOf (nodeId : Str) : Str := clauseStart (walk nodes (nodes.length + 1) nodeId) nodeId

end

variable {hash : SetOrder} {nodes : List ContextNode} {x y p : Str}

theorem nodeById_iff (ht : ClauseTree nodes) {n : ContextNode} : nodeById nodes x = some n ↔ n ∈ nodes ∧ n.nodeId = x := by
  constructor
  · exact PyList.get?_dictOf_some
  · rintro ⟨hn, rfl⟩
    exact PyList.get?_dictOf_of_mem ht.ids hn

theorem nodeById_isSome : (∃ n, nodeById nodes x = some n) ↔ x ∈ nodeIds nodes := PyList.get?_dictOf_isSome

theorem parentOf_eq_some (ht : ClauseTree nodes) : parentOf nodes x = some p ↔
    ∃ n ∈ nodes, n.nodeId = x ∧ n.parentId = some p ∧ p ∈ nodeIds nodes := by
  rw [parentOf, Option.filter_eq_some_iff, Option.bind_eq_some_iff]
  constructor
  · rintro ⟨⟨n, hn, hp⟩, hm⟩
    obtain ⟨hn, hid⟩ := (nodeById_iff ht).1 hn
    exact ⟨n, hn, hid, hp, of_decide_eq_true hm⟩
  · rintro ⟨n, hn, hid, hp, hm⟩
    exact ⟨⟨n, (nodeById_iff ht).2 ⟨hn, hid⟩, hp⟩, decide_eq_true hm⟩

theorem ClauseTree.rooted (ht : ClauseTree nodes) : Forest.Rooted (parentOf nodes) (nodeIds nodes) where
  mem := by
    intro x p h
    obtain ⟨n, hn, rfl, -, hp⟩ := (parentOf_eq_some ht).1 h
    exact ⟨List.mem_map_of_mem hn, hp⟩
  ranked := by
    obtain ⟨depth, hd⟩ := ht.ranked
    refine ⟨depth, fun x p h => ?_⟩
    obtain ⟨n, hn, rfl, hp, hm⟩ := (parentOf_eq_some ht).1 h
    exact hd n hn p hp hm

theorem ClauseTree.lists (ht : ClauseTree nodes) (hash : SetOrder) :
    Forest.Lists (parentOf nodes) (nodeIds nodes) fun x => (hash.order (childIds nodes x)).reverse where
  mem := by
    intro x hx c
    rw [List.mem_reverse, (hash.perm _).mem_iff, childIds, List.mem_dedup, List.mem_map, parentOf_eq_some ht]
    simp only [List.mem_filter, decide_eq_true_eq]
    constructor
    · rintro ⟨n, ⟨hn, hp⟩, hid⟩
      exact ⟨n, hn, hid, hp, hx⟩
    · rintro ⟨n, hn, hid, hp, -⟩
      exact ⟨n, ⟨hn, hp⟩, hid⟩
  nodup x := List.nodup_reverse.2 ((hash.perm _).nodup_iff.2 (List.nodup_dedup _))

theorem map_walk (ht : ClauseTree nodes) (n : Nat) (hx : x ∈ nodeIds nodes) :
    (walk nodes n x).map (·.nodeId) = Forest.climb (parentOf nodes) n x := by
  induction n generalizing x with
  | zero => rfl
  | succ n ih =>
    obtain ⟨node, hn⟩ := nodeById_isSome.2 hx
    have hid := ((nodeById_iff ht).1 hn).2
    rw [walk, hn, Forest.climb, parentOf, hn, Option.bind_some]
    dsimp only
    rw [List.map_cons, hid]
    congr 1
    cases hp : node.parentId with
    | none => rfl
    | some p =>
      by_cases hpm : p ∈ nodeIds nodes
      · rw [Option.filter_some, if_pos (decide_eq_true hpm)]
        exact ih hpm
      · rw [Option.filter_some, if_neg (by simpa using hpm), Option.elim_some, Option.elim_none]
        cases n with
        | zero => rfl
        | succ n =>
          have hnone : nodeById nodes p = none := by
            by_contra h
            exact hpm (nodeById_isSome.1 (Option.ne_none_iff_exists'.1 h))
          rw [walk, hnone]
          rfl

theorem mem_walk (ht : ClauseTree nodes) (hx : x ∈ nodeIds nodes) :
    y ∈ (walk nodes (nodes.length + 1) x).map (·.nodeId) ↔ AtOrAbove nodes x y := by
  rw [map_walk ht _ hx]
  exact Forest.mem_climb_iff ht.rooted hx (by simp [nodeIds])

theorem clauseStart_spec (ht : ClauseTree nodes) (hx : x ∈ nodeIds nodes) : AtOrAbove nodes x (clauseOf nodes x) := by
  have hnearest : ∀ nodeType : NodeType, ∀ s ∈ (((walk nodes (nodes.length + 1) x).find?
      (·.nodeType = nodeType)).map (·.nodeId)).filter (· ≠ []), AtOrAbove nodes x s := by
    intro nodeType s hs
    obtain ⟨hs, -⟩ := Option.filter_eq_some_iff.1 hs
    obtain ⟨n, hn, rfl⟩ := Option.map_eq_some_iff.1 hs
    exact (mem_walk ht hx).1 (List.mem_map_of_mem (List.mem_of_find?_eq_some hn))
  unfold clauseOf clauseStart
  dsimp only
  cases h : (((walk nodes (nodes.length + 1) x).find? (·.nodeType = .item)).map (·.nodeId)).filter (· ≠ []) with
  | some s => exact hnearest .item s h
  | none =>
    rw [Option.none_or]
    cases h : (((walk nodes (nodes.length + 1) x).find? (·.nodeType = .table)).map (·.nodeId)).filter (· ≠ []) with
    | some s => exact hnearest .table s h
    | none => exact .refl

/-! ### One call of `add` -/

theorem foldl_addTo_eq_self {xs s : List Str} (h : ∀ x ∈ xs, x ∈ s) : xs.foldl addTo s = s := by
  induction xs with
  | nil => rfl
  | cons x xs ih =>
    rw [List.foldl_cons, addTo, if_pos (h x List.mem_cons_self)]
    exact ih fun y hy => h y (List.mem_cons_of_mem _ hy)

theorem substantive_descend (n : Nat) (pending : List Str) (g : Group) : (descend hash nodes n pending g).substantive =
    Forest.sweep (fun x => (hash.order (childIds nodes x)).reverse) n pending g.substantive := by
  induction n generalizing pending g with
  | zero => rfl
  | succ n ih =>
    cases pending with
    | nil => rfl
    | cons x pending =>
      rw [descend, Forest.sweep]
      split
      · exact ih _ _
      · exact ih _ _

theorem selected_descend {n : Nat} {pending : List Str} {g : Group} (h : ∀ z ∈ g.substantive, z ∈ g.selected) :
    y ∈ (descend hash nodes n pending g).selected ↔
      y ∈ g.selected ∨ y ∈ (descend hash nodes n pending g).substantive := by
  induction n generalizing pending g with
  | zero => exact ⟨.inl, fun hy => hy.elim id (h y)⟩
  | succ n ih =>
    cases pending with
    | nil => exact ⟨.inl, fun hy => hy.elim id (h y)⟩
    | cons x pending =>
      rw [descend]
      split
      · exact ih h
      · have hsub : ∀ z ∈ g.substantive ++ [x], z ∈ addTo g.selected x := fun z hz =>
          mem_addTo.2 ((List.mem_append.1 hz).imp (h z) List.mem_singleton.1)
        rw [ih hsub]
        simp only [mem_addTo]
        have hx : x ∈ (descend hash nodes n ((hash.order (childIds nodes x)).reverse ++ pending)
            ⟨addTo g.selected x, g.substantive ++ [x]⟩).substantive := by
          rw [substantive_descend]
          exact Forest.subset_sweep (by simp)
        constructor
        · rintro ((hy | rfl) | hy)
          · exact .inl hy
          · exact .inr hx
          · exact .inr hy
        · rintro (hy | hy)
          · exact .inl (.inl hy)
          · exact .inr hy

/-- What holds between two calls of `add`. -/
structure Group.Inv (nodes : List ContextNode) (g : Group) : Prop where
  sub : ∀ x ∈ g.substantive, x ∈ g.selected
  known : ∀ x ∈ g.selected, x ∈ nodeIds nodes
  up : ∀ x ∈ g.selected, ∀ p, parentOf nodes x = some p → p ∈ g.selected
  down : ∀ x ∈ g.substantive, ∀ c, parentOf nodes c = some x → c ∈ g.substantive
  nodup : g.substantive.Nodup

section add
variable (ht : ClauseTree nodes) {g : Group} (hg : g.Inv nodes) (hx : x ∈ nodeIds nodes)
include ht hg hx

theorem mem_substantive_add : y ∈ (g.add hash nodes x).substantive ↔
    y ∈ g.substantive ∨ AtOrAbove nodes y (clauseOf nodes x) := by
  have hstart := (clauseStart_spec ht hx).mem ht.rooted hx
  rw [Group.add, if_pos hx]
  dsimp only
  rw [substantive_descend, Forest.mem_sweep_iff ht.rooted ht.ids (ht.lists hash)]
  · simp only [List.mem_singleton, exists_eq_left]
    rfl
  · exact fun r hr => List.mem_singleton.1 hr ▸ hstart
  · have : (Forest.waiting (parentOf nodes) (nodeIds nodes) g.substantive).length ≤ (nodeIds nodes).length :=
      List.length_filter_le ..
    simp only [nodeIds, List.length_map] at this
    simp only [List.length_singleton]
    simp only [nodeIds]
    omega
  · exact fun y hy c hc => .inl (hg.down y hy c hc)

theorem mem_selected_add : y ∈ (g.add hash nodes x).selected ↔
    y ∈ g.selected ∨ AtOrAbove nodes x y ∨ AtOrAbove nodes y (clauseOf nodes x) := by
  have hsub : ∀ z ∈ g.substantive, z ∈ ((walk nodes (nodes.length + 1) x).map (·.nodeId)).foldl addTo g.selected :=
    fun z hz => mem_foldl_addTo.2 (.inl (hg.sub z hz))
  have hsel : y ∈ (g.add hash nodes x).selected ↔
      y ∈ ((walk nodes (nodes.length + 1) x).map (·.nodeId)).foldl addTo g.selected ∨
        y ∈ (g.add hash nodes x).substantive := by
    rw [Group.add, if_pos hx]
    exact selected_descend hsub
  rw [hsel, mem_substantive_add ht hg hx, mem_foldl_addTo, mem_walk ht hx, or_assoc]
  constructor
  · rintro (h | h | h | h)
    · exact .inl h
    · exact .inr (.inl h)
    · exact .inl (hg.sub y h)
    · exact .inr (.inr h)
  · rintro (h | h | h)
    · exact .inl h
    · exact .inr (.inl h)
    · exact .inr (.inr (.inr h))

variable (hash)

theorem add_inv : (g.add hash nodes x).Inv nodes where
  sub y hy := by
    rw [mem_substantive_add ht hg hx] at hy
    exact (mem_selected_add ht hg hx).2 (hy.imp (hg.sub y) .inr)
  known y hy := by
    rcases (mem_selected_add ht hg hx).1 hy with h | h | h
    · exact hg.known y h
    · exact h.mem ht.rooted hx
    · exact h.mem_left ht.rooted ((clauseStart_spec ht hx).mem ht.rooted hx)
  up y hy p hp := by
    rw [mem_selected_add ht hg hx]
    rcases (mem_selected_add ht hg hx).1 hy with h | h | h
    · exact .inl (hg.up y h p hp)
    · exact .inr (.inl (h.tail hp))
    · rcases Relation.ReflTransGen.cases_head h with rfl | ⟨q, hq, hqs⟩
      · exact .inr (.inl ((clauseStart_spec ht hx).tail hp))
      · obtain rfl := Option.some.inj (hp.symm.trans hq)
        exact .inr (.inr hqs)
  down y hy c hc := by
    rw [mem_substantive_add ht hg hx] at hy ⊢
    exact hy.imp (fun h => hg.down y h c hc) fun h => .head hc h
  nodup := by
    rw [Group.add, if_pos hx]
    dsimp only
    rw [substantive_descend]
    exact Forest.nodup_sweep hg.nodup

/-- `add` changes nothing or makes a node substantive. -/
theorem add_eq_or_lt : g.add hash nodes x = g ∨
    g.substantive.length < (g.add hash nodes x).substantive.length := by
  by_cases hs : clauseOf nodes x ∈ g.substantive
  · left
    have hbelow : ∀ {z}, AtOrAbove nodes z (clauseOf nodes x) → z ∈ g.substantive := by
      intro z hz
      induction hz using Relation.ReflTransGen.head_induction_on with
      | refl => exact hs
      | head hp _ ih => exact hg.down _ ih _ hp
    have hxs := hg.sub x (hbelow (clauseStart_spec ht hx))
    have hpath : ∀ z ∈ (walk nodes (nodes.length + 1) x).map (·.nodeId), z ∈ g.selected := by
      intro z hz
      have habove := (mem_walk ht hx).1 hz
      induction habove with
      | refl => exact hxs
      | tail hxp hp ih => exact hg.up _ (ih ((mem_walk ht hx).2 hxp)) _ hp
    rw [Group.add, if_pos hx]
    dsimp only
    rw [foldl_addTo_eq_self hpath, descend]
    refine (if_pos hs).trans ?_
    cases nodes.length <;> rfl
  · right
    have hsub : (clauseOf nodes x :: g.substantive).Subperm (g.add hash nodes x).substantive := by
      refine List.subperm_of_subset (List.nodup_cons.2 ⟨hs, hg.nodup⟩) fun z hz => ?_
      rw [mem_substantive_add ht hg hx]
      rcases List.mem_cons.1 hz with rfl | hz
      · exact .inr .refl
      · exact .inl hz
    exact hsub.length_le

end add

/-! ### Rounds -/

/-- `S` and `T` hold what one call of `add` selects and makes substantive. -/
def Adds (nodes : List ContextNode) (S T : Set Str) (x : Str) : Prop :=
  x ∈ nodeIds nodes → (∀ a, AtOrAbove nodes x a → a ∈ S) ∧ ∀ d, AtOrAbove nodes d (clauseOf nodes x) → d ∈ S ∧ d ∈ T

/-- `S` holds the group of the seed and is closed under the links; `T` are its substantive nodes. -/
structure ClosedGroup (nodes : List ContextNode) (seed : Str) (S T : Set Str) : Prop where
  seed : Adds nodes S T seed
  applies : ∀ l ∈ allLinks nodes, l.linkType = .appliesTo → l.toNodeId ∈ S → Adds nodes S T l.fromNodeId
  joined : ∀ l ∈ allLinks nodes, l.linkType = .footnoteOf ∨ l.linkType = .continuationOf →
    l.fromNodeId ∈ T ∨ l.toNodeId ∈ T → Adds nodes S T l.fromNodeId ∧ Adds nodes S T l.toNodeId

section rounds
variable (hash) {g : Group}

/-- What every step of a link keeps, a round keeps. -/
theorem round_induction {P : Group → Prop} (links : List StructureNodeLink)
    (hl : ∀ g, ∀ l ∈ links, P g → P (g.follow hash nodes l)) (hP : P g) :
    P (links.foldl (Group.follow hash nodes) g) := by
  induction links generalizing g with
  | nil => exact hP
  | cons l links ih =>
    exact ih (fun g l hm => hl g l (List.mem_cons_of_mem _ hm)) (hl g l List.mem_cons_self hP)

/-- What every step of a link keeps, the loop keeps. -/
theorem grow_induction {P : Group → Prop} (links : List StructureNodeLink)
    (hl : ∀ g, ∀ l ∈ links, P g → P (g.follow hash nodes l)) (hP : P g) (n : Nat) :
    P (Group.grow hash nodes links n g) := by
  induction n generalizing g with
  | zero => exact hP
  | succ n ih =>
    rw [Group.grow]
    split
    · exact round_induction hash links hl hP
    · exact ih (round_induction hash links hl hP)

variable (ht : ClauseTree nodes)
include ht

theorem add_inv' (hg : g.Inv nodes) (x : Str) : (g.add hash nodes x).Inv nodes := by
  by_cases hx : x ∈ nodeIds nodes
  · exact add_inv hash ht hg hx
  · rwa [Group.add, if_neg hx]

theorem add_eq_or_lt' (hg : g.Inv nodes) (x : Str) : g.add hash nodes x = g ∨
    g.substantive.length < (g.add hash nodes x).substantive.length := by
  by_cases hx : x ∈ nodeIds nodes
  · exact add_eq_or_lt hash ht hg hx
  · exact .inl (if_neg hx)

theorem follow_inv (hg : g.Inv nodes) (l : StructureNodeLink) : (g.follow hash nodes l).Inv nodes := by
  unfold Group.follow
  split
  · exact add_inv' hash ht hg _
  · split
    · exact add_inv' hash ht (add_inv' hash ht hg _) _
    · exact hg

theorem follow_eq_or_lt (hg : g.Inv nodes) (l : StructureNodeLink) : g.follow hash nodes l = g ∨
    g.substantive.length < (g.follow hash nodes l).substantive.length := by
  unfold Group.follow
  split
  · exact add_eq_or_lt' hash ht hg _
  · split
    · rcases add_eq_or_lt' hash ht hg l.fromNodeId with h | h
      · rw [h]
        exact add_eq_or_lt' hash ht hg _
      · right
        rcases add_eq_or_lt' hash ht (add_inv' hash ht hg l.fromNodeId) l.toNodeId with h' | h'
        · rwa [h']
        · exact h.trans h'
    · exact .inl rfl

/-- A round that makes no node substantive changes nothing at any link. -/
theorem round_eq_or_lt (hg : g.Inv nodes) (links : List StructureNodeLink) :
    (∀ l ∈ links, g.follow hash nodes l = g) ∧ links.foldl (Group.follow hash nodes) g = g ∨
      g.substantive.length < (links.foldl (Group.follow hash nodes) g).substantive.length := by
  induction links generalizing g with
  | nil => exact .inl ⟨fun l hl => absurd hl List.not_mem_nil, rfl⟩
  | cons l links ih =>
    rw [List.foldl_cons]
    rcases follow_eq_or_lt hash ht hg l with h | h
    · rw [h]
      rcases ih hg with ⟨hall, hround⟩ | hlt
      · exact .inl ⟨List.forall_mem_cons.2 ⟨h, hall⟩, hround⟩
      · exact .inr hlt
    · right
      rcases ih (follow_inv hash ht hg l) with ⟨-, hround⟩ | hlt
      · rwa [hround]
      · exact h.trans hlt

/-- The loop ends, and where it ends no link changes anything. -/
theorem grow_spec (hg : g.Inv nodes) {links : List StructureNodeLink} {n : Nat}
    (hn : nodes.length < n + g.substantive.length) :
    (Group.grow hash nodes links n g).Inv nodes ∧
      ∀ l ∈ links, (Group.grow hash nodes links n g).follow hash nodes l = Group.grow hash nodes links n g := by
  have hbound : ∀ {g : Group}, g.Inv nodes → g.substantive.length ≤ nodes.length := by
    intro g hg
    have := (List.subperm_of_subset hg.nodup fun z hz => hg.known z (hg.sub z hz)).length_le
    simpa only [nodeIds, List.length_map] using this
  induction n generalizing g with
  | zero =>
    have := hbound hg
    omega
  | succ n ih =>
    rw [Group.grow]
    rcases round_eq_or_lt hash ht hg links with ⟨hall, hround⟩ | hlt
    · rw [hround, if_pos rfl]
      exact ⟨hg, hall⟩
    · rw [if_neg (Nat.ne_of_gt hlt)]
      exact ih (round_induction hash links (fun _ l _ h => follow_inv hash ht h l) hg) (by omega)

/-! ### The least closed group -/

theorem adds_of_add_eq (hg : g.Inv nodes) (h : g.add hash nodes x = g) :
    Adds nodes {y | y ∈ g.selected} {y | y ∈ g.substantive} x := by
  intro hx
  refine ⟨fun a ha => ?_, fun d hd => ⟨?_, ?_⟩⟩
  · exact h ▸ (mem_selected_add ht hg hx).2 (.inr (.inl ha))
  · exact h ▸ (mem_selected_add ht hg hx).2 (.inr (.inr hd))
  · exact h ▸ (mem_substantive_add ht hg hx).2 (.inr hd)

/-- The group lies in `S` and `T`. -/
def Group.Within (g : Group) (S T : Set Str) : Prop := (∀ y ∈ g.selected, y ∈ S) ∧ ∀ y ∈ g.substantive, y ∈ T

theorem within_add (hg : g.Inv nodes) {S T : Set Str} (hw : g.Within S T) (ha : Adds nodes S T x) :
    (g.add hash nodes x).Within S T := by
  by_cases hx : x ∈ nodeIds nodes
  · refine ⟨fun y hy => ?_, fun y hy => ?_⟩
    · rcases (mem_selected_add ht hg hx).1 hy with h | h | h
      · exact hw.1 y h
      · exact (ha hx).1 y h
      · exact ((ha hx).2 y h).1
    · rcases (mem_substantive_add ht hg hx).1 hy with h | h
      · exact hw.2 y h
      · exact ((ha hx).2 y h).2
  · rwa [Group.add, if_neg hx]

theorem within_follow (hg : g.Inv nodes) {seed : Str} {S T : Set Str} (hc : ClosedGroup nodes seed S T)
    (hw : g.Within S T) {l : StructureNodeLink} (hl : l ∈ allLinks nodes) : (g.follow hash nodes l).Within S T := by
  unfold Group.follow
  split
  · rename_i h
    exact within_add hash ht hg hw (hc.applies l hl h.1 (hw.1 _ h.2))
  · split
    · rename_i h
      obtain ⟨hfrom, hto⟩ := hc.joined l hl h.1 (h.2.imp (hw.2 _) (hw.2 _))
      exact within_add hash ht (add_inv' hash ht hg _) (within_add hash ht hg hw hfrom) hto
    · exact hw

/-- The group is never left by `add`. -/
theorem le_add (hg : g.Inv nodes) (x : Str) :
    g.Within {y | y ∈ (g.add hash nodes x).selected} {y | y ∈ (g.add hash nodes x).substantive} := by
  by_cases hx : x ∈ nodeIds nodes
  · exact ⟨fun y hy => (mem_selected_add ht hg hx).2 (.inl hy), fun y hy => (mem_substantive_add ht hg hx).2 (.inl hy)⟩
  · rw [Group.add, if_neg hx]
    exact ⟨fun _ h => h, fun _ h => h⟩

theorem le_follow (hg : g.Inv nodes) (l : StructureNodeLink) :
    g.Within {y | y ∈ (g.follow hash nodes l).selected} {y | y ∈ (g.follow hash nodes l).substantive} := by
  unfold Group.follow
  split
  · exact le_add hash ht hg _
  · split
    · have h := le_add hash ht hg l.fromNodeId
      have h' := le_add hash ht (add_inv' hash ht hg l.fromNodeId) l.toNodeId
      exact ⟨fun y hy => h'.1 y (h.1 y hy), fun y hy => h'.2 y (h.2 y hy)⟩
    · exact ⟨fun _ h => h, fun _ h => h⟩

/-- Where no link changes the group, it is closed under the links. -/
theorem closed_of_follow_eq (hg : g.Inv nodes) {seed : Str}
    (hseed : Adds nodes {y | y ∈ g.selected} {y | y ∈ g.substantive} seed)
    (h : ∀ l ∈ allLinks nodes, g.follow hash nodes l = g) :
    ClosedGroup nodes seed {y | y ∈ g.selected} {y | y ∈ g.substantive} where
  seed := hseed
  applies l hl htype hto := by
    have hf := h l hl
    rw [Group.follow, if_pos ⟨htype, hto⟩] at hf
    exact adds_of_add_eq hash ht hg hf
  joined l hl htype hends := by
    have hf := h l hl
    have hne : ¬(l.linkType = .appliesTo ∧ l.toNodeId ∈ g.selected) := by
      rintro ⟨h, -⟩
      rcases htype with h' | h' <;> cases h.symm.trans h'
    rw [Group.follow, if_neg hne, if_pos ⟨htype, hends⟩] at hf
    have hfrom : g.add hash nodes l.fromNodeId = g := by
      rcases add_eq_or_lt' hash ht hg l.fromNodeId with hfrom | hlt
      · exact hfrom
      · -- the second call gives back nothing
        have hsecond := add_eq_or_lt' hash ht (add_inv' hash ht hg l.fromNodeId) l.toNodeId
        rw [hf] at hsecond
        rcases hsecond with hsecond | hsecond
        · exact hsecond.symm
        · exact absurd hsecond (Nat.lt_asymm hlt)
    rw [hfrom] at hf
    exact ⟨adds_of_add_eq hash ht hg hfrom, adds_of_add_eq hash ht hg hf⟩

/-- The loop ends in the least group of the seed that is closed under the links. -/
theorem grow_least (hx : x ∈ nodeIds nodes) {links : List StructureNodeLink} (hl : links.Perm (allLinks nodes))
    {g : Group} (hg : Group.grow hash nodes links (nodes.length + 1) (Group.add hash nodes ⟨[], []⟩ x) = g) :
    g.Inv nodes ∧ ClosedGroup nodes x {y | y ∈ g.selected} {y | y ∈ g.substantive} ∧
      ∀ S T, ClosedGroup nodes x S T → g.Within S T := by
  have hempty : (⟨[], []⟩ : Group).Inv nodes := by constructor <;> simp
  have hinv := add_inv hash ht hempty hx
  obtain ⟨hlast, hend⟩ := grow_spec hash ht hinv (n := nodes.length + 1) (by omega)
  rw [hg] at hlast hend
  refine ⟨hlast, ?_, fun S T hc => ?_⟩
  · refine closed_of_follow_eq hash ht hlast ?_ fun l hm => hend l (hl.mem_iff.2 hm)
    have hle := (grow_induction hash links
      (P := fun h => h.Inv nodes ∧ (Group.add hash nodes ⟨[], []⟩ x).Within {y | y ∈ h.selected} {y | y ∈ h.substantive})
      (fun h l _ hh => ⟨follow_inv hash ht hh.1 l, fun y hy => (le_follow hash ht hh.1 l).1 y (hh.2.1 y hy),
        fun y hy => (le_follow hash ht hh.1 l).2 y (hh.2.2 y hy)⟩)
      ⟨hinv, fun _ h => h, fun _ h => h⟩ (nodes.length + 1)).2
    rw [hg] at hle
    intro _
    refine ⟨fun a ha => hle.1 a ((mem_selected_add ht hempty hx).2 (.inr (.inl ha))), fun d hd => ⟨?_, ?_⟩⟩
    · exact hle.1 d ((mem_selected_add ht hempty hx).2 (.inr (.inr hd)))
    · exact hle.2 d ((mem_substantive_add ht hempty hx).2 (.inr hd))
  · have hw := (grow_induction hash links
      (P := fun h => h.Inv nodes ∧ h.Within S T)
      (fun h l hm hh => ⟨follow_inv hash ht hh.1 l, within_follow hash ht hh.1 hc hh.2 (hl.mem_iff.1 hm)⟩)
      ⟨hinv, within_add hash ht hempty ⟨by simp, by simp⟩ hc.seed⟩ (nodes.length + 1)).2
    rwa [hg] at hw

end rounds

/-- The nodes of a tree whose ids are selected, with the links between them. -/
def keepNodes (nodes : List ContextNode) (selected : List Str) : List ContextNode :=
  (nodes.filter (·.nodeId ∈ selected)).map (·.keepLinks (· ∈ selected))

theorem keepNodes_congr {s t : List Str} (h : ∀ x, x ∈ s ↔ x ∈ t) : keepNodes nodes s = keepNodes nodes t := by
  unfold keepNodes ContextNode.keepLinks
  simp only [h]

theorem mem_keepNodes {s : List Str} (h : ∀ x ∈ s, x ∈ nodeIds nodes) :
    x ∈ (keepNodes nodes s).map (·.nodeId) ↔ x ∈ s := by
  rw [keepNodes, List.map_map, List.mem_map]
  simp only [List.mem_filter, decide_eq_true_eq]
  constructor
  · rintro ⟨n, ⟨-, hn⟩, rfl⟩
    exact hn
  · intro hx
    obtain ⟨n, hn, rfl⟩ := List.mem_map.1 (h x hx)
    exact ⟨n, ⟨hn, hx⟩, rfl⟩

theorem links_keepNodes {s : List Str} {n : ContextNode} (hn : n ∈ keepNodes nodes s) :
    ∀ l ∈ n.links, l.fromNodeId ∈ s ∧ l.toNodeId ∈ s := by
  obtain ⟨n, -, rfl⟩ := List.mem_map.1 hn
  intro l hl
  simpa using (List.mem_filter.1 hl).2

/-- The nodes of a clause group are, in the order of the tree, those of the least group that holds the
seed, its ancestors and the subtree of its clause and is closed under the links of the nodes. This is
so in whatever order sets are iterated, and the links kept on a node stay in the group. -/
theorem clauseGroup_least (ht : ClauseTree nodes) {seed : ContextNode} (hseed : seed ∈ nodes)
    (hroot : seed.nodeType ≠ .root) (hsection : seed.nodeType ≠ .majorSection) :
    ∃ (selected : List Str) (T : Set Str),
      ClosedGroup nodes seed.nodeId {x | x ∈ selected} T ∧
      (∀ S' T', ClosedGroup nodes seed.nodeId S' T' → (∀ x ∈ selected, x ∈ S') ∧ ∀ x ∈ T, x ∈ T') ∧
      ∀ hash linkOrder,
        clauseGroup hash nodes linkOrder seed.nodeId = keepNodes nodes selected ∧
        (∀ x, x ∈ (clauseGroup hash nodes linkOrder seed.nodeId).map (·.nodeId) ↔ x ∈ selected) ∧
        ∀ n ∈ clauseGroup hash nodes linkOrder seed.nodeId, ∀ l ∈ n.links,
          l.fromNodeId ∈ selected ∧ l.toNodeId ∈ selected := by
  have hx : seed.nodeId ∈ nodeIds nodes := List.mem_map_of_mem hseed
  have hrun : ∀ hash (linkOrder : LinkOrder), _ := fun hash linkOrder =>
    grow_least hash ht hx (linkOrder.perm (allLinks nodes)) rfl
  obtain ⟨hinv, hc, hleast⟩ := hrun ⟨id, fun _ => .refl _⟩ ⟨id, fun _ => .refl _⟩
  refine ⟨_, _, hc, hleast, fun hash linkOrder => ?_⟩
  obtain ⟨-, hc', hleast'⟩ := hrun hash linkOrder
  have hgroup : clauseGroup hash nodes linkOrder seed.nodeId = keepNodes nodes (Group.grow hash nodes
      (linkOrder.order (allLinks nodes)) (nodes.length + 1) (Group.add hash nodes ⟨[], []⟩ seed.nodeId)).selected := by
    rw [clauseGroup, (nodeById_iff ht).2 ⟨hseed, rfl⟩]
    exact if_neg (not_or_intro hroot hsection)
  rw [hgroup, keepNodes_congr fun x => ⟨(hleast' _ _ hc).1 x, (hleast _ _ hc').1 x⟩]
  exact ⟨rfl, fun x => mem_keepNodes hinv.known, fun n hn => links_keepNodes hn⟩

/-! An item, and another that is a condition on it. -/

def clauseNode (nodeId : Str) (parentId : Option Str) (nodeType : NodeType) (links : List StructureNodeLink) :
    ContextNode :=
  ⟨nodeId, [], parentId, nodeType, .benefit, none, 0, [], [], links, [], [], none⟩

def clauseNodes : List ContextNode :=
  [clauseNode "r".toList none .root [],
    clauseNode "i".toList (some "r".toList) .item [],
    clauseNode "n".toList (some "r".toList) .item [⟨"n".toList, "i".toList, .appliesTo⟩]]

theorem clauseNodes_tree : ClauseTree clauseNodes where
  ids := by decide
  ne := by decide
  ranked := ⟨fun x => if x = "r".toList then 0 else 1, by decide⟩

theorem clauseGroup_least_condition : ∃ (selected : List Str) (T : Set Str),
    ClosedGroup clauseNodes "i".toList {x | x ∈ selected} T ∧
    (∀ S' T', ClosedGroup clauseNodes "i".toList S' T' → (∀ x ∈ selected, x ∈ S') ∧ ∀ x ∈ T, x ∈ T') ∧
    ∀ hash linkOrder,
      clauseGroup hash clauseNodes linkOrder "i".toList = keepNodes clauseNodes selected ∧
      (∀ x, x ∈ (clauseGroup hash clauseNodes linkOrder "i".toList).map (·.nodeId) ↔ x ∈ selected) ∧
      ∀ n ∈ clauseGroup hash clauseNodes linkOrder "i".toList, ∀ l ∈ n.links,
        l.fromNodeId ∈ selected ∧ l.toNodeId ∈ selected :=
  clauseGroup_least clauseNodes_tree (List.mem_cons_of_mem _ List.mem_cons_self) (by decide) (by decide)

/-- The condition comes with its item. -/
example : (clauseGroup ⟨id, fun _ => .refl _⟩ clauseNodes ⟨id, fun _ => .refl _⟩ "i".toList).map (·.nodeId) =
    ["r".toList, "i".toList, "n".toList] := by decide

end CardRag.Search
