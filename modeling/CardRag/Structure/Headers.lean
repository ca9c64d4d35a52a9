import CardRag.Structure.Build
import CardRag.Structure.ParseInv

/-! # Table headers along a run

A table takes its headers from the table it continues, or else from its first row that is not a
separator. Rows before that one keep the empty headers they were given, so the headers of a table and
its rows fall apart exactly when such a row comes after a separator row. `scanPages` follows this on
the kinds of the lines alone; the lemmas show that it tells how the drafts end. -/

namespace CardRag

/-- What a line is to the tables of its page. -/
inductive LineKind where
  | gap
  | text
  | row (separator : Bool)
deriving DecidableEq, Repr

def lineKind (boilerplate : List (Nat × Nat × Nat)) (line : SourceLine) : LineKind :=
  if isPassedOver boilerplate line then .gap
  else if isTableLine line.visible then .row (isTableSeparator (tableCells line.visible))
  else .text

/-- Whether the next line of substance is a separator row. -/
def separatorNext (kinds : List LineKind) : Bool := kinds.find? (· ≠ .gap) = some (.row true)

/-- The page so far: whether no line of substance came yet, whether the open table has headers, and
the same of the table of the last line of substance. -/
structure TableScan where
  first : Bool := true
  table : Option Bool := none
  last : Option (Option Bool) := none
deriving DecidableEq, Repr

namespace TableScan

/-- One line, given whether the previous page ended in a table with headers. There is no next state
when a row names the headers of a table that already has rows without them. -/
def step (previous : Option Bool) (s : TableScan) (kind : LineKind) (rest : List LineKind) :
    Option TableScan :=
  match kind, s.table with
  | .gap, _ => some { s with table := none }
  | .text, _ => some { first := false, table := none, last := some none }
  | .row separator, some headed =>
    if headed || separator then some { first := false, table := some headed, last := some (some headed) }
    else none
  | .row separator, none =>
    let inherits := s.first && previous == some true && !separatorNext rest
    let headed := inherits || !separator
    some { first := false, table := some headed, last := some (some headed) }

def steps (previous : Option Bool) : TableScan → List LineKind → Option TableScan
  | s, [] => some s
  | s, kind :: rest => do
    let s ← s.step previous kind rest
    steps previous s rest

/-- The pages in turn; a page without a line of substance passes on what the one before it ended in. -/
def pages : Option Bool → List (List LineKind) → Bool
  | _, [] => true
  | previous, kinds :: rest =>
    match steps previous {} kinds with
    | none => false
    | some s => pages (s.last.getD previous) rest

end TableScan

/-- No table of the document starts with separator rows, inherits no headers and then has a row that
is not a separator. -/
def headersLead (U : Unicode) (inp : StructureInput) (profile : IssuerParserProfile) : Bool :=
  let lines := inp.pages.map sourceLines
  let boilerplate := repeatedEdgeLines U lines profile
  TableScan.pages none (lines.map (·.map (lineKind boilerplate)))

theorem separatorNext_eq (boilerplate : List (Nat × Nat × Nat)) (rest : List SourceLine) :
    separatorNext (rest.map (lineKind boilerplate)) = nextTableLineIsSeparator boilerplate rest := by
  induction rest with
  | nil => rfl
  | cons l rest ih =>
    unfold separatorNext nextTableLineIsSeparator at *
    rw [List.map_cons]
    by_cases hp : isPassedOver boilerplate l = true
    · rw [List.find?_cons_of_neg (by simp [lineKind, hp]), List.find?_cons_of_neg (by simp [hp])]
      exact ih
    · have hk : lineKind boilerplate l ≠ .gap := by
        unfold lineKind
        rw [if_neg hp]
        split <;> simp
      rw [List.find?_cons_of_pos (by simpa using hk), List.find?_cons_of_pos (by simpa using hp)]
      unfold lineKind
      rw [if_neg hp]
      cases ht : isTableLine l.visible <;> simp [ht]

/-! ### The drafts a line adds -/

/-- Drafts that are neither tables nor rows. -/
def Plain (new : List NodeDraft) : Prop := ∀ d ∈ new, d.nodeType ≠ .table ∧ d.nodeType ≠ .tableRow

/-- Whether the table at an index has headers. -/
def headed (ds : List NodeDraft) (t : Nat) : Bool := (ds.getD t rootDraft).tableHeaders ≠ []

/-- A row without headers under a table with headers. -/
def BadRow (ds : List NodeDraft) : Prop :=
  ∃ (i p : Nat) (row table : NodeDraft), ds[i]? = some row ∧ row.nodeType = .tableRow ∧
    row.parentIndex = some p ∧ ds[p]? = some table ∧ row.tableHeaders = [] ∧ table.tableHeaders ≠ []

/-- A row put under the table at `t`: the headers of the table and of the row become `headers`. -/
def RowAdded (ds : List NodeDraft) (t : Nat) (headers : List Str) (ds' : List NodeDraft) : Prop :=
  ∃ (f : NodeDraft → NodeDraft) (row : NodeDraft), ds' = ds.modify t f ++ [row] ∧
    (∀ d, (f d).nodeType = d.nodeType ∧ (f d).parentIndex = d.parentIndex ∧ (f d).tableHeaders = headers) ∧
    row.nodeType = .tableRow ∧ row.parentIndex = some t ∧ row.tableHeaders = headers

section
variable {ds ds' new : List NodeDraft} {t u : Nat} {headers : List Str}

theorem headed_append (ht : t < ds.length) : headed (ds ++ new) t = headed ds t := by
  simp [headed, List.getElem?_append_left ht]

theorem TablesFilled.append (h : TablesFilled ds) (hnew : Plain new) : TablesFilled (ds ++ new) := by
  rintro t ⟨d, hd, ht⟩
  have hlt : t < ds.length := by
    by_contra hge
    rw [List.getElem?_append_right (by omega)] at hd
    exact (hnew d (List.mem_of_getElem? hd)).1 ht
  rw [List.getElem?_append_left hlt] at hd
  obtain ⟨i, row, hrow, hrest⟩ := h t ⟨d, hd, ht⟩
  exact ⟨i, row, by rw [List.getElem?_append_left (List.getElem?_eq_some_iff.1 hrow).1, hrow], hrest⟩

theorem BadRow.append (h : BadRow ds) (new : List NodeDraft) : BadRow (ds ++ new) := by
  obtain ⟨i, p, row, table, hrow, ht, hp, htable, hrest⟩ := h
  refine ⟨i, p, row, table, ?_, ht, hp, ?_, hrest⟩
  · rw [List.getElem?_append_left (List.getElem?_eq_some_iff.1 hrow).1, hrow]
  · rw [List.getElem?_append_left (List.getElem?_eq_some_iff.1 htable).1, htable]

theorem BadRow.not_agree (h : BadRow ds) : ¬ RowsAgree ds := by
  obtain ⟨i, p, row, table, hrow, ht, hp, htable, hnil, hne⟩ := h
  intro hagree
  exact hne (by rw [← hagree i p row table hrow ht hp htable, hnil])

theorem RowsAgree.append {H : Sha256} {isBoiler : SourceLine → Bool} {seen done : List SourceLine}
    (hds : DraftsOk H isBoiler seen done ds) (h : RowsAgree ds) (hnew : ∀ d ∈ new, d.nodeType ≠ .tableRow) :
    RowsAgree (ds ++ new) := by
  intro i p row table hrow ht hp htable
  have hi : i < ds.length := by
    by_contra hge
    rw [List.getElem?_append_right (by omega)] at hrow
    exact hnew row (List.mem_of_getElem? hrow) ht
  rw [List.getElem?_append_left hi] at hrow
  have hlt : p < ds.length := by
    have := hds.parent_lt hrow p hp
    omega
  rw [List.getElem?_append_left hlt] at htable
  exact h i p row table hrow ht hp htable

namespace RowAdded

/-- The drafts that were there keep their type and parent, and but for the table their headers. -/
theorem old (h : RowAdded ds t headers ds') {i : Nat} {d : NodeDraft} (hd : ds[i]? = some d) :
    ∃ d', ds'[i]? = some d' ∧ d'.nodeType = d.nodeType ∧ d'.parentIndex = d.parentIndex ∧
      d'.tableHeaders = if i = t then headers else d.tableHeaders := by
  obtain ⟨f, row, rfl, hf, -⟩ := h
  have hi := (List.getElem?_eq_some_iff.1 hd).1
  refine ⟨if i = t then f d else d, ?_, ?_⟩
  · rw [List.getElem?_append_left (by simpa using hi), List.getElem?_modify, hd]
    by_cases hit : t = i
    · simp [hit]
    · simp [hit, Ne.symm hit]
  · split
    · exact hf d
    · exact ⟨rfl, rfl, rfl⟩

/-- What is there afterwards was there, or is the new row. -/
theorem inv (h : RowAdded ds t headers ds') {i : Nat} {d' : NodeDraft} (hd : ds'[i]? = some d') :
    (∃ d, ds[i]? = some d ∧ d'.nodeType = d.nodeType ∧ d'.parentIndex = d.parentIndex ∧
      d'.tableHeaders = if i = t then headers else d.tableHeaders) ∨
    i = ds.length ∧ d'.nodeType = .tableRow ∧ d'.parentIndex = some t ∧ d'.tableHeaders = headers := by
  by_cases hi : i < ds.length
  · obtain ⟨e, he, hrest⟩ := h.old (List.getElem?_eq_getElem hi)
    rw [hd] at he
    cases he
    exact .inl ⟨_, List.getElem?_eq_getElem hi, hrest⟩
  · obtain ⟨f, row, rfl, -, hrow⟩ := h
    have hlen := (List.getElem?_eq_some_iff.1 hd).1
    simp only [List.length_append, List.length_modify, List.length_singleton] at hlen
    have heq : i = ds.length := by omega
    subst heq
    rw [List.getElem?_append_right (by simp)] at hd
    obtain rfl : row = d' := by simpa using hd
    exact .inr ⟨rfl, hrow⟩

theorem new_row (h : RowAdded ds t headers ds') : ∃ row, ds'[ds.length]? = some row ∧
    row.nodeType = .tableRow ∧ row.parentIndex = some t ∧ row.tableHeaders = headers := by
  obtain ⟨f, row, rfl, -, hrow⟩ := h
  exact ⟨row, by rw [List.getElem?_append_right (by simp)]; simp, hrow⟩

theorem headed_eq (h : RowAdded ds t headers ds') (hu : u < ds.length) :
    headed ds' u = if u = t then decide (headers ≠ []) else headed ds u := by
  obtain ⟨d', hd', -, -, hh⟩ := h.old (List.getElem?_eq_getElem hu)
  rw [headed, headed, List.getD_eq_getElem?_getD, hd', Option.getD_some, hh, List.getD_eq_getElem _ _ hu]
  split <;> rfl

theorem filled (h : RowAdded ds t headers ds')
    (hf : ∀ u, u ≠ t → HasType ds u .table →
      ∃ (i : Nat) (row : NodeDraft), ds[i]? = some row ∧ row.nodeType = .tableRow ∧ row.parentIndex = some u) :
    TablesFilled ds' := by
  rintro u ⟨d', hd', ht⟩
  by_cases hu : u = t
  · subst hu
    obtain ⟨row, hrow, h1, h2, -⟩ := h.new_row
    exact ⟨_, row, hrow, h1, h2⟩
  · rcases h.inv hd' with ⟨d, hd, htype, -⟩ | ⟨-, hrow, -⟩
    · obtain ⟨i, row, hrow, hrt, hrp⟩ := hf u hu ⟨d, hd, by rw [← htype, ht]⟩
      obtain ⟨row', hrow', h1, h2, -⟩ := h.old hrow
      exact ⟨i, row', hrow', by rw [h1, hrt], by rw [h2, hrp]⟩
    · rw [ht] at hrow
      cases hrow

theorem bad (h : RowAdded ds t headers ds') (hbad : BadRow ds) (hkeep : headed ds t = true → headers ≠ [])
    (ht : HasType ds t .table) : BadRow ds' := by
  obtain ⟨i, p, row, table, hrow, hrt, hrp, htable, hnil, hne⟩ := hbad
  obtain ⟨row', hrow', h1, h2, h3⟩ := h.old hrow
  obtain ⟨table', htable', h4, -, h5⟩ := h.old htable
  have hit : i ≠ t := by
    rintro rfl
    obtain ⟨d, hd, hdt⟩ := ht
    rw [hrow] at hd
    cases hd
    rw [hrt] at hdt
    cases hdt
  refine ⟨i, p, row', table', hrow', by rw [h1, hrt], by rw [h2, hrp], htable', by rw [h3, if_neg hit, hnil], ?_⟩
  rw [h5]
  split
  · rename_i hpt
    subst hpt
    exact hkeep (by simp [headed, htable, hne])
  · exact hne

theorem agree {H : Sha256} {isBoiler : SourceLine → Bool} {seen done : List SourceLine}
    (hds : DraftsOk H isBoiler seen done ds) (h : RowAdded ds t headers ds') (hagree : RowsAgree ds)
    (ht : HasType ds t .table)
    (hkeep : (ds.getD t rootDraft).tableHeaders = headers ∨
      ∀ (i : Nat) (row : NodeDraft), ds[i]? = some row → row.nodeType = .tableRow → row.parentIndex ≠ some t) :
    RowsAgree ds' := by
  intro i p row' table' hrow' hrt hrp htable'
  obtain ⟨d, hd, hdt⟩ := ht
  rcases h.inv hrow' with ⟨row, hrow, h1, h2, h3⟩ | ⟨-, -, hpt, hrh⟩
  · have hplt : p < ds.length := by
      have hi := (List.getElem?_eq_some_iff.1 hrow).1
      have := hds.parent_lt hrow p (by rw [← h2, hrp]; rfl)
      omega
    obtain ⟨table, htable, -, -, h4⟩ := h.old (List.getElem?_eq_getElem hplt)
    rw [htable'] at htable
    cases htable
    have hit : i ≠ t := by
      rintro rfl
      rw [hrow] at hd
      cases hd
      rw [← h1, hrt] at hdt
      cases hdt
    have hold := hagree i p row _ hrow (by rw [← h1, hrt]) (by rw [← h2, hrp]) (List.getElem?_eq_getElem hplt)
    rw [h3, if_neg hit, h4, hold]
    split
    · rename_i hpt
      subst hpt
      rcases hkeep with hk | hk
      · rw [← hk, List.getD_eq_getElem _ _ hplt]
      · exact absurd (by rw [← h2, hrp]) (hk i row hrow (by rw [← h1, hrt]))
    · rfl
  · rw [hrp] at hpt
    cases hpt
    obtain ⟨table, htable, -, -, h4⟩ := h.old hd
    rw [htable'] at htable
    cases htable
    rw [hrh, h4, if_pos rfl]

/-- Headers that come after a row without them. -/
theorem bad_of_late (h : RowAdded ds t headers ds') (hagree : RowsAgree ds) (hnil : headed ds t = false)
    (hne : headers ≠ []) (ht : HasType ds t .table) (hfilled : TablesFilled ds) : BadRow ds' := by
  obtain ⟨i, row, hrow, hrt, hrp⟩ := hfilled t ht
  obtain ⟨d, hd, hdt⟩ := ht
  obtain ⟨row', hrow', h1, h2, h3⟩ := h.old hrow
  obtain ⟨table', htable', h4, -, h5⟩ := h.old hd
  have hit : i ≠ t := by
    rintro rfl
    rw [hrow] at hd
    cases hd
    rw [hrt] at hdt
    cases hdt
  have hempty : d.tableHeaders = [] := by simpa [headed, hd] using hnil
  refine ⟨i, t, row', table', hrow', by rw [h1, hrt], by rw [h2, hrp], htable', ?_, by rwa [h5, if_pos rfl]⟩
  rw [h3, if_neg hit, hagree i t row d hrow hrt hrp hd, hempty]

end RowAdded

end

end CardRag
