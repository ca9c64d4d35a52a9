import CardRag.Structure.Fallback
import CardRag.Structure.WellFormed

/-! # Accepted artifacts lose no text

What the checks of `validate_structure_artifact` amount to for a reader of the artifact: its leaves
partition the pages and give their text back, its nodes are one tree in which parents come first,
and its links stay inside it. -/

namespace CardRag

/-- The span holds the character at `offset` of the page with number `page`. -/
def NodeSpan.Holds (s : NodeSpan) (page offset : Nat) : Prop :=
  s.page = page ∧ s.sourceStart ≤ offset ∧ offset < s.sourceEnd

instance (s : NodeSpan) (page offset : Nat) : Decidable (s.Holds page offset) := by
  unfold NodeSpan.Holds; infer_instance

namespace StructureArtifact

/-- `parent` is the parent of `node` in the artifact. -/
def IsParent (a : StructureArtifact) (parent node : StructureNode) : Prop :=
  parent ∈ a.nodes ∧ node ∈ a.nodes ∧ node.nodeType ≠ .root ∧ node.parentId = some parent.nodeId

/-- The artifact keeps its pages: text, tree and links. -/
structure Lossless (a : StructureArtifact) : Prop where
  within : ∀ s ∈ a.leafSpans, ∃ page ∈ a.pages, s.page = page.page ∧ s.sourceEnd ≤ page.text.length
  once : ∀ page ∈ a.pages, ∀ offset < page.text.length,
    a.leafSpans.countP (fun s => s.Holds page.page offset) = 1
  text : ∀ page ∈ a.pages, a.reconstructed page = page.text
  tree : ∃ root rest, a.nodes = root :: rest ∧ root.nodeType = .root ∧ root.ordinal = 0 ∧
    root.parentId = none ∧
    ∀ node ∈ a.nodes, Relation.ReflTransGen a.IsParent root node
  parent : ∀ node ∈ a.nodes, node.nodeType ≠ .root → ∃! parent, a.IsParent parent node
  precedes : ∀ parent node, a.IsParent parent node → parent.ordinal < node.ordinal
  link : ∀ link ∈ a.links, ∃ source ∈ a.nodes, ∃ target ∈ a.nodes,
    source.nodeId = link.fromNodeId ∧ target.nodeId = link.toNodeId ∧ source ≠ target

variable {H : Sha256} {U : Unicode} {a : StructureArtifact}

/-- In a list of cell blocks without repetition a cell lies in one block only. -/
theorem countP_holds_eq_one {spans : List NodeSpan} {page offset : Nat}
    (hnd : (spans.flatMap spanCells).Nodup) (hmem : (page, offset) ∈ spans.flatMap spanCells) :
    spans.countP (fun s => s.Holds page offset) = 1 := by
  have hcell : ∀ s : NodeSpan, (page, offset) ∈ spanCells s ↔ s.Holds page offset := by
    intro s
    simp only [spanCells, Bitmap.mem_cells, NodeSpan.Holds, eq_comm]
  induction spans with
  | nil => simp at hmem
  | cons s ss ih =>
    rw [List.flatMap_cons, List.nodup_append] at hnd
    rw [List.flatMap_cons, List.mem_append] at hmem
    rw [List.countP_cons]
    by_cases hs : s.Holds page offset
    · have hnone : ss.countP (fun s => s.Holds page offset) = 0 := by
        refine List.countP_eq_zero.2 fun t ht htc => ?_
        have htc := (hcell t).2 (of_decide_eq_true htc)
        exact hnd.2.2 _ ((hcell s).2 hs) _ (List.mem_flatMap.2 ⟨t, ht, htc⟩) rfl
      simp [hs, hnone]
    · have hrest := hmem.resolve_left fun h => hs ((hcell s).1 h)
      simp [hs, ih hnd.2.1 hrest]

namespace WellFormed
variable (h : a.WellFormed H)
include h

theorem nodeOk {node : StructureNode} (hn : node ∈ a.nodes) : ∃ i, a.nodes[i]? = some node ∧ a.NodeOk H node i := by
  obtain ⟨i, hi⟩ := List.getElem?_of_mem hn
  exact ⟨i, hi, h.node i node hi⟩

theorem nodeById_eq {node : StructureNode} (hn : node ∈ a.nodes) : nodeById a.nodes node.nodeId = some node :=
  PyList.get?_dictOf_of_mem h.ids hn

/-- A node is determined by its identifier. -/
theorem eq_of_nodeId {m n : StructureNode} (hm : m ∈ a.nodes) (hn : n ∈ a.nodes)
    (hid : m.nodeId = n.nodeId) : m = n :=
  List.inj_on_of_nodup_map h.ids hm hn hid

theorem exists_parent {node : StructureNode} (hn : node ∈ a.nodes) (ht : node.nodeType ≠ .root) :
    ∃ parent, a.IsParent parent node ∧ parent.ordinal < node.ordinal := by
  obtain ⟨i, -, hok⟩ := h.nodeOk hn
  obtain ⟨parent, hp, -, hlt⟩ := hok.parent ht
  obtain ⟨id, hid, hget⟩ := Option.bind_eq_some_iff.1 hp
  obtain ⟨hmem, rfl⟩ := PyList.get?_dictOf_some hget
  exact ⟨parent, ⟨hmem, hn, ht, hid⟩, hlt⟩

theorem isParent_unique {p q node : StructureNode} (hp : a.IsParent p node) (hq : a.IsParent q node) :
    p = q :=
  h.eq_of_nodeId hp.1 hq.1 (Option.some.inj (hp.2.2.2.symm.trans hq.2.2.2))

theorem precedes {parent node : StructureNode} (hp : a.IsParent parent node) :
    parent.ordinal < node.ordinal := by
  obtain ⟨q, hq, hlt⟩ := h.exists_parent hp.2.1 hp.2.2.1
  rwa [h.isParent_unique hp hq]

/-- The root is the first node, and the only one of its type. -/
theorem root_first : ∃ root rest, a.nodes = root :: rest ∧ root.nodeType = .root ∧ root.ordinal = 0 ∧
    root.parentId = none ∧ ∀ node ∈ rest, node.nodeType ≠ .root := by
  obtain ⟨root, hroots, hparent, hord⟩ := h.root
  have hmem : root ∈ a.nodes.filter (·.nodeType = .root) := by simp [hroots]
  obtain ⟨hmem, htype⟩ := List.mem_filter.1 hmem
  obtain ⟨i, hi, hok⟩ := h.nodeOk hmem
  have hi0 : i = 0 := by rw [← hok.ordinal, hord]
  subst hi0
  obtain ⟨rest, hnodes⟩ : ∃ rest, a.nodes = root :: rest := by
    cases hn : a.nodes with
    | nil => simp [hn] at hi
    | cons n ns => simp [hn] at hi; exact ⟨ns, by rw [hi]⟩
  refine ⟨root, rest, hnodes, by simpa using htype, hord, hparent, fun node hnode hroot => ?_⟩
  rw [hnodes, List.filter_cons_of_pos (by simpa using htype)] at hroots
  have : node ∈ rest.filter (·.nodeType = .root) := List.mem_filter.2 ⟨hnode, by simpa using hroot⟩
  rw [(List.cons.inj hroots).2] at this
  simp at this

/-- Every node hangs under the root: induction on its ordinal. -/
theorem reachable {root : StructureNode} (hroot : ∀ node ∈ a.nodes, node.nodeType = .root → node = root) :
    ∀ k, ∀ node ∈ a.nodes, node.ordinal = k → Relation.ReflTransGen a.IsParent root node := by
  intro k
  induction k using Nat.strongRecOn with
  | _ k ih =>
    intro node hn hk
    by_cases ht : node.nodeType = .root
    · rw [hroot node hn ht]
    · obtain ⟨parent, hp, hlt⟩ := h.exists_parent hn ht
      exact (ih parent.ordinal (by omega) parent hp.1 rfl).tail hp

theorem lossless : a.Lossless where
  within s hs := by
    obtain ⟨node, hn, -, hs⟩ := mem_leafSpans.1 hs
    obtain ⟨i, -, hok⟩ := h.nodeOk hn
    obtain ⟨page, hp⟩ := hok.spans s hs
    obtain ⟨hmem, hnum⟩ := PyList.get?_dictOf_some hp.page_eq
    exact ⟨page, hmem, hnum.symm, hp.end_le⟩
  once page hp offset hlt := countP_holds_eq_one h.covered.nodup (h.covered.full page hp offset hlt)
  text := h.covered.text
  tree := by
    obtain ⟨root, rest, hnodes, htype, hord, hparent, hrest⟩ := h.root_first
    refine ⟨root, rest, hnodes, htype, hord, hparent, fun node hn => h.reachable ?_ _ node hn rfl⟩
    intro m hm hmt
    rw [hnodes] at hm
    exact (List.mem_cons.1 hm).resolve_right fun hm => hrest m hm hmt
  parent node hn ht := by
    obtain ⟨parent, hp, -⟩ := h.exists_parent hn ht
    exact ⟨parent, hp, fun q hq => h.isParent_unique hq hp⟩
  precedes _ _ hp := h.precedes hp
  link link hl := by
    obtain ⟨i, hi⟩ := List.getElem?_of_mem hl
    obtain ⟨source, target, hs, ht, -, -, hne⟩ := (h.link i link hi).ends
    obtain ⟨hsm, hsid⟩ := PyList.get?_dictOf_some hs
    obtain ⟨htm, htid⟩ := PyList.get?_dictOf_some ht
    exact ⟨source, hsm, target, htm, hsid, htid, fun heq => hne (by rw [heq])⟩

end WellFormed

end StructureArtifact

section
variable {H : Sha256} {U : Unicode} {inp : StructureInput} {a : StructureArtifact}

theorem parseStructureArtifact_eq_ok :
    parseStructureArtifact H U inp = .ok a ↔ parsedArtifact H U inp = .ok a ∧ a.WellFormed H := by
  simp only [parseStructureArtifact, Guard.bind_eq_ok, Guard.pure_eq_ok]
  rw [← StructureArtifact.validate_ok_iff]
  constructor
  · rintro ⟨a, h, c, hc, rfl⟩
    exact ⟨h, c, hc⟩
  · rintro ⟨h, c, hc⟩
    exact ⟨a, h, c, hc, rfl⟩

theorem wellFormed_of_fallback (h : buildUnclassifiedFallbackArtifact H inp = .ok a) : a.WellFormed H := by
  simp only [buildUnclassifiedFallbackArtifact, Guard.bind_eq_ok, Guard.pure_eq_ok] at h
  obtain ⟨_, -, _, -, _, -, _, -, c, hc, rfl⟩ := h
  exact StructureArtifact.validate_ok_iff.1 ⟨c, hc⟩

/-- Whatever the validator accepts, and so whatever the parser or the fallback returns, is lossless. -/
theorem accepted_lossless
    (h : (∃ c, validateStructureArtifact H a = .ok c) ∨ (∃ inp, parseStructureArtifact H U inp = .ok a) ∨
      ∃ inp, buildUnclassifiedFallbackArtifact H inp = .ok a) : a.Lossless := by
  rcases h with h | ⟨inp, h⟩ | ⟨inp, h⟩
  · exact (StructureArtifact.validate_ok_iff.1 h).lossless
  · exact (parseStructureArtifact_eq_ok.1 h).2.lossless
  · exact (wellFormed_of_fallback h).lossless

end

/-- Two lines on one page, and one on the next. -/
def twoPages : StructureInput := sampleInput [⟨['d'], 1, "a\nb\n".toList⟩, ⟨['d'], 2, "c\n".toList⟩]

theorem accepted_lossless_two_pages : ∃ a,
    buildUnclassifiedFallbackArtifact .standard twoPages = .ok a ∧ a.Lossless := by
  obtain ⟨a, h⟩ := Guard.exists_ok_of_isOk (x := buildUnclassifiedFallbackArtifact .standard twoPages) (by decide +kernel)
  exact ⟨a, h, accepted_lossless (U := .ascii) (.inr (.inr ⟨_, h⟩))⟩

end CardRag
