import CardRag.Structure.Headers

/-! # The scan follows the parser

`Agrees previous s st`: the scan state `s` knows of the parser state `st` which of its tables have
headers, and so far every row carries the headers of its table. A line keeps this or, where the scan
stops, leaves a row that lost its headers; later lines never repair such a row. -/

namespace CardRag

namespace ParserState

/-! ### What a line does to the drafts and the page variables -/

section
variable (st : ParserState)

@[simp] theorem ensureItem_currentTable : st.ensureItem.currentTable = st.currentTable := by
  unfold ensureItem; split <;> rfl

@[simp] theorem ensureItem_previousPageLastTable :
    st.ensureItem.previousPageLastTable = st.previousPageLastTable := by
  unfold ensureItem; split <;> rfl

theorem ensureItem_drafts : ∃ new, Plain new ∧ st.ensureItem.drafts = st.drafts ++ new := by
  unfold ensureItem
  split
  · exact ⟨[], by simp [Plain], by simp⟩
  · exact ⟨[_], by simp [Plain], rfl⟩

end

/-- A state after a line that is in no table. -/
structure PlainStep (st st' : ParserState) : Prop where
  drafts : ∃ new, Plain new ∧ st'.drafts = st.drafts ++ new
  table : st'.currentTable = none
  previous : st'.previousPageLastTable = st.previousPageLastTable

/-- What a line of substance leaves on the page, with the table it belongs to. -/
structure Marked (table : Option Nat) (st' : ParserState) : Prop where
  first : st'.pageFirstSemantic = false
  semantic : st'.pageLastSemantic.isSome = true
  lastTable : st'.pageLastTable = table

section
variable {H : Sha256} {U : Unicode} {profile : IssuerParserProfile} {st : ParserState} {l : SourceLine}

theorem boilerplateLine_plain : PlainStep st (st.boilerplateLine H l) :=
  ⟨⟨[_], by simp [Plain], rfl⟩, rfl, rfl⟩

theorem blankLine_plain : PlainStep st (st.blankLine H l) := ⟨⟨[_], by simp [Plain], rfl⟩, rfl, rfl⟩

theorem plainType_plain (visible : Str) (inherited ownClass : MajorClass) :
    plainType U visible inherited ownClass ≠ .table ∧ plainType U visible inherited ownClass ≠ .tableRow := by
  rcases Inv.plainType_cases U visible inherited ownClass with h | h | h | h <;> simp [h]

theorem plainLine_drafts (H : Sha256) (U : Unicode) (profile : IssuerParserProfile) (st : ParserState)
    (l : SourceLine) : ∃ d, (st.plainLine H U profile l).drafts = st.ensureItem.drafts ++ [d] ∧
    d.nodeType ≠ .table ∧ d.nodeType ≠ .tableRow :=
  ⟨_, rfl, plainType_plain _ _ _⟩

theorem textLine_plain : PlainStep st (st.textLine H U profile l) := by
  unfold textLine
  split
  · refine ⟨⟨[_] ++ [_], ?_, List.append_assoc _ [_] [_]⟩, rfl, rfl⟩
    simp [Plain]
  · refine ⟨⟨[_] ++ [_], ?_, List.append_assoc _ [_] [_]⟩, rfl, rfl⟩
    simp [Plain]
  · obtain ⟨new, hnew, hitem⟩ := ensureItem_drafts { st with currentTable := none }
    obtain ⟨d, hline, hd⟩ := plainLine_drafts H U profile { st with currentTable := none } l
    refine ⟨⟨new ++ [d], fun e he => ?_, by rw [hline, hitem, List.append_assoc]⟩, ?_, ?_⟩
    · rcases List.mem_append.1 he with he | he
      · exact hnew e he
      · rw [List.mem_singleton.1 he]
        exact hd
    · exact ensureItem_currentTable { st with currentTable := none }
    · exact ensureItem_previousPageLastTable { st with currentTable := none }

theorem textLine_marked : Marked none (st.textLine H U profile l) := by
  unfold textLine
  split <;> exact ⟨rfl, rfl, rfl⟩

theorem addRow_added (t : Nat) (continued : Bool) :
    RowAdded st.drafts t (rowRole (st.draft t).tableHeaders (tableCells l.visible)).1
      (st.addRow H t l continued).drafts :=
  ⟨_, _, rfl, fun _ => ⟨rfl, rfl, rfl⟩, rfl, rfl, rfl⟩

theorem addRow_marked (t : Nat) (continued : Bool) : Marked (some t) (st.addRow H t l continued) :=
  ⟨rfl, rfl, rfl⟩

/-- How a table line changes the drafts: a row under the open table, or a new table with its row. -/
theorem tableLine_cases {isBoiler : SourceLine → Bool} {done : List SourceLine} (declares : Bool)
    (l : SourceLine) (hi : st.Inv H isBoiler done done) :
    let st' := st.tableLine H declares l
    let cells := tableCells l.visible
    st'.previousPageLastTable = st.previousPageLastTable ∧
    ((∃ t, st.currentTable = some t ∧ st'.currentTable = some t ∧ Marked (some t) st' ∧
        RowAdded st.drafts t (rowRole (st.draft t).tableHeaders cells).1 st'.drafts) ∨
      (st.currentTable = none ∧ ∃ new table, Plain new ∧ table.nodeType = .table ∧
        table.tableHeaders = (if st.pageFirstSemantic && st.previousPageLastTable.isSome && !declares then
          (st.draft (st.previousPageLastTable.getD 0)).tableHeaders else []) ∧
        DraftsOk H isBoiler done done (st.drafts ++ new ++ [table]) ∧
        st'.currentTable = some (st.drafts ++ new).length ∧ Marked (some (st.drafts ++ new).length) st' ∧
        RowAdded (st.drafts ++ new ++ [table]) (st.drafts ++ new).length
          (rowRole table.tableHeaders cells).1 st'.drafts)) := by
  dsimp only
  unfold tableLine
  split
  · rename_i t ht
    exact ⟨rfl, .inl ⟨t, ht, ht, addRow_marked t false, addRow_added t false⟩⟩
  · rename_i ht
    set continued := st.pageFirstSemantic && st.previousPageLastTable.isSome && !declares with hc
    have hopen := hi.openTable continued (by simp +contextual [hc])
    obtain ⟨new, hnew, hitem⟩ := ensureItem_drafts st
    have hcur : (st.openTable continued).currentTable.getD 0 = (st.drafts ++ new).length := by rw [← hitem]; rfl
    -- the table continued from the previous page is not touched by a new item
    have hheaders : continued = true → (st.ensureItem.draft (st.ensureItem.previousPageLastTable.getD 0)) =
        st.draft (st.previousPageLastTable.getD 0) := by
      intro hcont
      rw [ensureItem_previousPageLastTable, draft, draft, hitem]
      obtain ⟨p, hp⟩ := Option.isSome_iff_exists.1
        (show st.previousPageLastTable.isSome = true by simp [hc] at hcont; simp [hcont])
      have hlt := (hi.prevTable p hp).lt
      rw [hp, Option.getD_some, List.getD_append _ _ _ _ hlt]
    obtain ⟨table, hdrafts, htype, hth⟩ : ∃ table, (st.openTable continued).drafts = st.drafts ++ new ++ [table] ∧
        table.nodeType = .table ∧ table.tableHeaders = (if continued then
          (st.draft (st.previousPageLastTable.getD 0)).tableHeaders else []) := by
      refine ⟨_, by rw [← hitem]; rfl, rfl, ?_⟩
      dsimp only
      split
      · rename_i hcont; rw [hheaders hcont]
      · rfl
    have hdraft : (st.openTable continued).draft (st.drafts ++ new).length = table := by
      rw [draft, hdrafts]; simp
    refine ⟨ensureItem_previousPageLastTable st, .inr ⟨ht, new, table, hnew, htype, hth, ?_, ?_, ?_, ?_⟩⟩
    · rw [← hdrafts]; exact hopen.drafts
    · rw [← hcur]; rfl
    · dsimp only
      rw [hcur]; exact addRow_marked _ _
    · dsimp only
      rw [hcur, ← hdrafts, ← hdraft]; exact addRow_added _ _

/-- One line, by its kind. -/
theorem stepLine_cases {boilerplate : List (Nat × Nat × Nat)} {rest : List SourceLine} {st' : ParserState}
    (hstep : st.stepLine H U profile boilerplate l rest = .ok st') :
    (lineKind boilerplate l = .gap ∧ PlainStep st st' ∧ st'.pageFirstSemantic = st.pageFirstSemantic ∧
      st'.pageLastSemantic = st.pageLastSemantic ∧ st'.pageLastTable = st.pageLastTable) ∨
    (lineKind boilerplate l = .text ∧ PlainStep st st' ∧ Marked none st') ∨
    (lineKind boilerplate l = .row (isTableSeparator (tableCells l.visible)) ∧
      st' = st.tableLine H (st.pageFirstSemantic && nextTableLineIsSeparator boilerplate rest) l) := by
  simp only [stepLine, Guard.bind_eq_ok, raiseIf_eq_ok, Guard.exists_unit] at hstep
  obtain ⟨-, hstep⟩ := hstep
  unfold lineKind isPassedOver
  split at hstep
  · rename_i hb
    simp only [Guard.pure_eq_ok] at hstep
    subst hstep
    refine .inl ⟨if_pos ?_, boilerplateLine_plain, rfl, rfl, rfl⟩
    rcases hb with hb | hb <;> simp [hb]
  · rename_i hb
    split at hstep
    · rename_i hblank
      simp only [Guard.pure_eq_ok] at hstep
      subst hstep
      exact .inl ⟨if_pos (by simp [hblank]), blankLine_plain, rfl, rfl, rfl⟩
    · rename_i hblank
      have hpass : (decide (PyStr.strip l.visible = []) || decide (l.key ∈ boilerplate) ||
          (pageMarker (PyStr.strip l.visible)).isSome) = false := by
        simpa [hblank, not_or] using hb
      simp only [hpass]
      split at hstep <;> rename_i hrow <;> simp only [Guard.pure_eq_ok] at hstep <;> subst hstep
      · exact .inr (.inr ⟨by simp [hrow], rfl⟩)
      · exact .inr (.inl ⟨by simp [hrow], textLine_plain, textLine_marked⟩)

end

end ParserState

/-- A row sets the headers of its table when there are none and it is not a separator. -/
theorem rowRole_headers (headers cells : List Str) :
    (ParserState.rowRole headers cells).1 = if headers = [] ∧ isTableSeparator cells = false then cells else headers := by
  unfold ParserState.rowRole
  dsimp only
  split
  · rfl
  · split
    · rfl
    · split <;> rfl

/-! ### One line -/

/-- The scan state tells which tables of the parser state have headers. -/
structure Agrees (previous : Option Bool) (s : TableScan) (st : ParserState) : Prop where
  first : st.pageFirstSemantic = s.first
  table : st.currentTable.map (headed st.drafts) = s.table
  last : (st.pageLastSemantic.map fun _ => st.pageLastTable.map (headed st.drafts)) = s.last
  previous : st.previousPageLastTable.map (headed st.drafts) = previous
  fresh : ∀ p ∈ st.previousPageLastTable, ∀ t ∈ st.currentTable, p < t
  rows : RowsAgree st.drafts

section
variable {H : Sha256} {U : Unicode} {profile : IssuerParserProfile} {isBoiler : SourceLine → Bool}
  {done : List SourceLine} {st st' : ParserState} {previous : Option Bool} {s : TableScan} {l : SourceLine}

/-- Tables keep their headers when drafts are added. -/
theorem map_headed_append {o : Option Nat} {ds new : List NodeDraft} (h : ∀ t ∈ o, t < ds.length) :
    o.map (headed (ds ++ new)) = o.map (headed ds) := by
  cases o with
  | none => rfl
  | some t => simp [headed_append (h t rfl)]

theorem Agrees.plain (hi : st.Inv H isBoiler done done) (h : Agrees previous s st)
    (hp : ParserState.PlainStep st st') (hfirst : st'.pageFirstSemantic = st.pageFirstSemantic)
    (hlast : st'.pageLastSemantic = st.pageLastSemantic) (htable : st'.pageLastTable = st.pageLastTable) :
    Agrees previous { s with table := none } st' := by
  obtain ⟨new, hnew, hd⟩ := hp.drafts
  refine ⟨hfirst.trans h.first, by rw [hp.table]; rfl, ?_, ?_, by simp [hp.table], ?_⟩
  · rw [hlast, htable, hd, map_headed_append fun t ht => (hi.lastTable t ht).lt]
    exact h.last
  · rw [hp.previous, hd, map_headed_append fun t ht => (hi.prevTable t ht).lt]
    exact h.previous
  · rw [hd]
    exact h.rows.append hi.drafts fun d hd => (hnew d hd).2

theorem Agrees.text (hi : st.Inv H isBoiler done done) (h : Agrees previous s st)
    (hp : ParserState.PlainStep st st') (hm : ParserState.Marked none st') :
    Agrees previous { first := false, table := none, last := some none } st' := by
  obtain ⟨new, hnew, hd⟩ := hp.drafts
  obtain ⟨last, hlast⟩ := Option.isSome_iff_exists.1 hm.semantic
  refine ⟨hm.first, by rw [hp.table]; rfl, by rw [hlast, hm.lastTable]; rfl, ?_, by simp [hp.table], ?_⟩
  · rw [hp.previous, hd, map_headed_append fun t ht => (hi.prevTable t ht).lt]
    exact h.previous
  · rw [hd]
    exact h.rows.append hi.drafts fun d hd => (hnew d hd).2

/-- A row under a table that keeps its headers, or gets them as its first row. -/
theorem Agrees.row {ds : List NodeDraft} {t : Nat} {headers : List Str} {seen : List SourceLine}
    (hds : DraftsOk H isBoiler seen done ds) (ht : HasType ds t .table) (hrows : RowsAgree ds)
    (hadd : RowAdded ds t headers st'.drafts) (hcur : st'.currentTable = some t)
    (hm : ParserState.Marked (some t) st')
    (hprev : st'.previousPageLastTable.map (headed ds) = previous)
    (hfresh : ∀ p ∈ st'.previousPageLastTable, p < t)
    (hkeep : (ds.getD t rootDraft).tableHeaders = headers ∨
      ∀ (i : Nat) (row : NodeDraft), ds[i]? = some row → row.nodeType = .tableRow → row.parentIndex ≠ some t) :
    Agrees previous { first := false, table := some (decide (headers ≠ []))
                      last := some (some (decide (headers ≠ []))) } st' := by
  have hhead : headed st'.drafts t = decide (headers ≠ []) := by
    rw [hadd.headed_eq ht.lt, if_pos rfl]
  obtain ⟨last, hlast⟩ := Option.isSome_iff_exists.1 hm.semantic
  refine ⟨hm.first, ?_, ?_, ?_, ?_, hadd.agree hds hrows ht hkeep⟩
  · rw [hcur, Option.map_some, hhead]
  · rw [hlast, hm.lastTable, Option.map_some, Option.map_some, hhead]
  · rw [← hprev]
    cases hp : st'.previousPageLastTable with
    | none => rfl
    | some p =>
      have hlt := hfresh p hp
      rw [Option.map_some, Option.map_some, hadd.headed_eq (lt_trans hlt ht.lt), if_neg (by omega)]
  · intro p hp u hu
    rw [hcur] at hu
    cases hu
    exact hfresh p hp

/-- A new table is the last draft, so no row hangs under it yet. -/
theorem no_row_under_last {ds : List NodeDraft} {table : NodeDraft} {seen : List SourceLine}
    (hds : DraftsOk H isBoiler seen done (ds ++ [table])) :
    ∀ (i : Nat) (row : NodeDraft), (ds ++ [table])[i]? = some row → row.nodeType = .tableRow →
      row.parentIndex ≠ some ds.length := by
  intro i row hrow _ hp
  have h1 := hds.parent_lt hrow _ hp
  have h2 := (List.getElem?_eq_some_iff.1 hrow).1
  simp only [List.length_append, List.length_singleton] at h2
  omega

theorem hasType_last (ds : List NodeDraft) {table : NodeDraft} (ht : table.nodeType = .table) :
    HasType (ds ++ [table]) ds.length .table :=
  ⟨table, by simp, ht⟩

/-- Every table has a row after every line. -/
theorem stepLine_filled {boilerplate : List (Nat × Nat × Nat)} {rest : List SourceLine}
    (hi : st.Inv H (isBoilerplateLine boilerplate) done done) (hf : TablesFilled st.drafts)
    (hstep : st.stepLine H U profile boilerplate l rest = .ok st') : TablesFilled st'.drafts := by
  rcases ParserState.stepLine_cases hstep with ⟨-, hp, -⟩ | ⟨-, hp, -⟩ | ⟨-, rfl⟩
  · obtain ⟨new, hnew, hd⟩ := hp.drafts
    exact hd ▸ hf.append hnew
  · obtain ⟨new, hnew, hd⟩ := hp.drafts
    exact hd ▸ hf.append hnew
  · rcases (ParserState.tableLine_cases _ l hi).2 with ⟨t, -, -, -, hadd⟩ | ⟨-, new, table, hnew, -, -, -, -, -, hadd⟩
    · exact hadd.filled fun u _ hu => hf u hu
    · refine hadd.filled fun u hne hu => ?_
      have hlt : u < (st.drafts ++ new).length := by
        have := hu.lt
        simp only [List.length_append, List.length_singleton] at this hne ⊢
        omega
      obtain ⟨d, hd, ht⟩ := hu
      rw [List.getElem?_append_left hlt] at hd
      obtain ⟨i, row, hrow, hrest⟩ := hf.append hnew u ⟨d, hd, ht⟩
      exact ⟨i, row, by rw [List.getElem?_append_left (List.getElem?_eq_some_iff.1 hrow).1, hrow], hrest⟩

/-- Headers are never taken away. -/
theorem rowRole_ne_nil {headers cells : List Str} (h : headers ≠ []) :
    (ParserState.rowRole headers cells).1 ≠ [] := by
  rw [rowRole_headers, if_neg (by simp [h])]
  exact h

/-- A row that lost its headers stays so. -/
theorem stepLine_bad {boilerplate : List (Nat × Nat × Nat)} {rest : List SourceLine}
    (hi : st.Inv H (isBoilerplateLine boilerplate) done done) (hb : BadRow st.drafts)
    (hstep : st.stepLine H U profile boilerplate l rest = .ok st') : BadRow st'.drafts := by
  rcases ParserState.stepLine_cases hstep with ⟨-, hp, -⟩ | ⟨-, hp, -⟩ | ⟨-, rfl⟩
  · obtain ⟨new, hnew, hd⟩ := hp.drafts
    exact hd ▸ hb.append new
  · obtain ⟨new, hnew, hd⟩ := hp.drafts
    exact hd ▸ hb.append new
  · rcases (ParserState.tableLine_cases _ l hi).2 with ⟨t, ht, -, -, hadd⟩ |
      ⟨-, new, table, hnew, htype, -, -, -, -, hadd⟩
    · exact hadd.bad hb (fun h => rowRole_ne_nil (of_decide_eq_true h)) (hi.table t ht)
    · refine hadd.bad ((hb.append new).append _) (fun h => rowRole_ne_nil ?_) (hasType_last _ htype)
      simpa [headed] using h

/-- The headers of a row, when it is not a separator or its table has some. -/
theorem rowRole_decide (headers : List Str) (line : Str) :
    decide ((ParserState.rowRole headers (tableCells line)).1 ≠ []) =
      (decide (headers ≠ []) || !isTableSeparator (tableCells line)) := by
  rw [rowRole_headers]
  by_cases hh : headers = []
  · cases hs : isTableSeparator (tableCells line)
    · simp [hh, tableCells_ne_nil]
    · simp [hh]
  · simp [hh]

theorem stepLine_scan {boilerplate : List (Nat × Nat × Nat)} {rest : List SourceLine}
    (hi : st.Inv H (isBoilerplateLine boilerplate) done done) (hf : TablesFilled st.drafts)
    (h : Agrees previous s st) (hstep : st.stepLine H U profile boilerplate l rest = .ok st') :
    (∃ s', s.step previous (lineKind boilerplate l) (rest.map (lineKind boilerplate)) = some s' ∧
      Agrees previous s' st') ∨
    s.step previous (lineKind boilerplate l) (rest.map (lineKind boilerplate)) = none ∧ BadRow st'.drafts := by
  rcases ParserState.stepLine_cases hstep with ⟨hk, hp, h1, h2, h3⟩ | ⟨hk, hp, hm⟩ | ⟨hk, rfl⟩
  · rw [hk]
    exact .inl ⟨_, rfl, h.plain hi hp h1 h2 h3⟩
  · rw [hk]
    exact .inl ⟨_, rfl, h.text hi hp hm⟩
  · rw [hk]
    set separator := isTableSeparator (tableCells l.visible) with hsep
    obtain ⟨hprev, hcases⟩ := ParserState.tableLine_cases
      (st.pageFirstSemantic && nextTableLineIsSeparator boilerplate rest) l hi
    rcases hcases with ⟨t, ht, hcur, hm, hadd⟩ | ⟨ht, new, table, hnew, htype, hth, hds, hcur, hm, hadd⟩
    · -- the open table
      have htable : s.table = some (headed st.drafts t) := by rw [← h.table, ht]; rfl
      have hopen := hi.table t ht
      by_cases hok : (headed st.drafts t || separator) = true
      · have hheaders : (ParserState.rowRole (st.draft t).tableHeaders (tableCells l.visible)).1 =
            (st.draft t).tableHeaders := by
          rw [rowRole_headers, if_neg]
          rintro ⟨hnil, hs⟩
          rw [← hsep] at hs
          have : headed st.drafts t = false := by
            show decide ((st.draft t).tableHeaders ≠ []) = false
            simp [hnil]
          simp [this, hs] at hok
        rw [hheaders] at hadd
        have hagree := Agrees.row hi.drafts hopen h.rows hadd hcur hm (hprev ▸ h.previous)
          (fun p hp => h.fresh p (hprev ▸ hp) t ht) (.inl rfl)
        exact .inl ⟨_, by simp only [TableScan.step, htable, hok, if_true]; rfl, hagree⟩
      · have hoff : headed st.drafts t = false ∧ separator = false := by simpa using hok
        refine .inr ⟨by simp [TableScan.step, htable, hoff.1, hoff.2], ?_⟩
        refine hadd.bad_of_late h.rows hoff.1 ?_ hopen hf
        have := rowRole_decide (st.draft t).tableHeaders l.visible
        rw [← hsep, hoff.2] at this
        simpa using this
    · -- a new table, which may continue the one before the page break
      have htable : s.table = none := by rw [← h.table, ht]; rfl
      have hheaded : decide (table.tableHeaders ≠ []) =
          (s.first && previous == some true && !separatorNext (rest.map (lineKind boilerplate))) := by
        rw [hth, separatorNext_eq, ← h.first, ← h.previous]
        cases hfirst : st.pageFirstSemantic
        · simp
        · cases hpt : st.previousPageLastTable with
          | none => simp
          | some p =>
            cases hnext : nextTableLineIsSeparator boilerplate rest
            · simp [headed, ParserState.draft]
            · simp
      have hrows : RowsAgree (st.drafts ++ new ++ [table]) := by
        rw [List.append_assoc]
        refine h.rows.append hi.drafts fun d hd => ?_
        rcases List.mem_append.1 hd with hd | hd
        · exact (hnew d hd).2
        · rw [List.mem_singleton.1 hd, htype]
          simp
      have hagree : Agrees previous _ _ := Agrees.row hds (hasType_last _ htype) hrows hadd hcur hm
        (by
          rw [hprev, map_headed_append fun p hp => ?_, map_headed_append fun p hp => (hi.prevTable p hp).lt]
          · exact h.previous
          · have := (hi.prevTable p hp).lt
            simp only [List.length_append]
            omega)
        (fun p hp => by
          have := (hi.prevTable p (hprev ▸ hp)).lt
          simp only [List.length_append]
          omega) (.inr (no_row_under_last hds))
      refine .inl ⟨_, ?_, hagree⟩
      rw [rowRole_decide, hheaded, ← hsep]
      simp only [TableScan.step, htable]

/-! ### Whole runs -/

variable {boilerplate : List (Nat × Nat × Nat)}

/-- What no line takes away: every table has a row, and a row that lost its headers stays so. -/
theorem stepLines_keep {lines : List SourceLine} (hi : st.Inv H (isBoilerplateLine boilerplate) done done)
    (hstep : ParserState.stepLines H U profile boilerplate st lines = .ok st') :
    (TablesFilled st.drafts → TablesFilled st'.drafts) ∧ (BadRow st.drafts → BadRow st'.drafts) := by
  induction lines generalizing st done with
  | nil =>
    simp only [ParserState.stepLines, Guard.pure_eq_ok] at hstep
    subst hstep
    exact ⟨id, id⟩
  | cons l rest ih =>
    simp only [ParserState.stepLines, Guard.bind_eq_ok] at hstep
    obtain ⟨st1, h1, h2⟩ := hstep
    obtain ⟨hf, hb⟩ := ih (hi.stepLine h1) h2
    exact ⟨fun h => hf (stepLine_filled hi h h1), fun h => hb (stepLine_bad hi h h1)⟩

theorem stepLines_scan {lines : List SourceLine} (hi : st.Inv H (isBoilerplateLine boilerplate) done done)
    (hf : TablesFilled st.drafts) (h : Agrees previous s st)
    (hstep : ParserState.stepLines H U profile boilerplate st lines = .ok st') :
    (∃ s', TableScan.steps previous s (lines.map (lineKind boilerplate)) = some s' ∧ Agrees previous s' st') ∨
    TableScan.steps previous s (lines.map (lineKind boilerplate)) = none ∧ BadRow st'.drafts := by
  induction lines generalizing st done s with
  | nil =>
    simp only [ParserState.stepLines, Guard.pure_eq_ok] at hstep
    subst hstep
    exact .inl ⟨s, rfl, h⟩
  | cons l rest ih =>
    simp only [ParserState.stepLines, Guard.bind_eq_ok] at hstep
    obtain ⟨st1, h1, h2⟩ := hstep
    simp only [List.map_cons, TableScan.steps]
    rcases stepLine_scan hi hf h h1 with ⟨s1, hs1, ha⟩ | ⟨hs1, hb⟩
    · rw [hs1]
      exact ih (hi.stepLine h1) (stepLine_filled hi hf h1) ha h2
    · rw [hs1]
      exact .inr ⟨rfl, (stepLines_keep (hi.stepLine h1) h2).2 hb⟩

/-- A page begins with no table open. -/
theorem startPage_inv (hi : st.Inv H isBoiler done done) : ParserState.Inv H isBoiler done done
    { st with
      pageFirstSemantic := true, pageLastSemantic := none, pageLastTable := none, currentTable := none } :=
  { hi with table := by simp, lastTable := by simp, lastSemantic := by simp }

theorem stepPage_keep {lines : List SourceLine} (hi : st.Inv H (isBoilerplateLine boilerplate) done done)
    (hstep : ParserState.stepPage H U profile boilerplate st lines = .ok st') :
    (TablesFilled st.drafts → TablesFilled st'.drafts) ∧ (BadRow st.drafts → BadRow st'.drafts) := by
  simp only [ParserState.stepPage, Guard.bind_eq_ok] at hstep
  obtain ⟨st1, h1, h2⟩ := hstep
  have hkeep := stepLines_keep (startPage_inv hi) h1
  split at h2 <;> simp only [Guard.pure_eq_ok] at h2 <;> subst h2 <;> exact hkeep

theorem stepPage_scan {lines : List SourceLine} (hi : st.Inv H (isBoilerplateLine boilerplate) done done)
    (hf : TablesFilled st.drafts) (hrows : RowsAgree st.drafts)
    (hprev : st.previousPageLastTable.map (headed st.drafts) = previous)
    (hstep : ParserState.stepPage H U profile boilerplate st lines = .ok st') :
    (∃ s', TableScan.steps previous {} (lines.map (lineKind boilerplate)) = some s' ∧ RowsAgree st'.drafts ∧
      st'.previousPageLastTable.map (headed st'.drafts) = s'.last.getD previous) ∨
    TableScan.steps previous {} (lines.map (lineKind boilerplate)) = none ∧ BadRow st'.drafts := by
  simp only [ParserState.stepPage, Guard.bind_eq_ok] at hstep
  obtain ⟨st1, h1, h2⟩ := hstep
  have hstart : Agrees previous {} { st with
      pageFirstSemantic := true, pageLastSemantic := none, pageLastTable := none, currentTable := none } :=
    ⟨rfl, rfl, rfl, hprev, by simp, hrows⟩
  rcases stepLines_scan (startPage_inv hi) hf hstart h1 with ⟨s', hs', ha⟩ | ⟨hs', hb⟩
  · refine .inl ⟨s', hs', ?_⟩
    split at h2 <;> rename_i hlast <;> simp only [Guard.pure_eq_ok] at h2 <;> subst h2
    · exact ⟨ha.rows, by rw [← ha.last, hlast]; rfl⟩
    · exact ⟨ha.rows, by rw [← ha.last, hlast, ha.previous]; rfl⟩
  · refine .inr ⟨hs', ?_⟩
    split at h2 <;> simp only [Guard.pure_eq_ok] at h2 <;> subst h2 <;> exact hb

theorem pages_keep {pages : List (List SourceLine)} (hi : st.Inv H (isBoilerplateLine boilerplate) done done)
    (hrun : pages.foldlM (ParserState.stepPage H U profile boilerplate) st = .ok st') :
    (TablesFilled st.drafts → TablesFilled st'.drafts) ∧ (BadRow st.drafts → BadRow st'.drafts) := by
  induction pages generalizing st done with
  | nil =>
    simp only [List.foldlM_nil, Guard.pure_eq_ok] at hrun
    subst hrun
    exact ⟨id, id⟩
  | cons lines pages ih =>
    simp only [List.foldlM_cons, Guard.bind_eq_ok] at hrun
    obtain ⟨st1, h1, h2⟩ := hrun
    obtain ⟨hf, hb⟩ := ih (hi.stepPage h1) h2
    exact ⟨fun h => hf ((stepPage_keep hi h1).1 h), fun h => hb ((stepPage_keep hi h1).2 h)⟩

theorem pages_scan {pages : List (List SourceLine)} (hi : st.Inv H (isBoilerplateLine boilerplate) done done)
    (hf : TablesFilled st.drafts) (hrows : RowsAgree st.drafts)
    (hprev : st.previousPageLastTable.map (headed st.drafts) = previous)
    (hrun : pages.foldlM (ParserState.stepPage H U profile boilerplate) st = .ok st') :
    RowsAgree st'.drafts ↔ TableScan.pages previous (pages.map (·.map (lineKind boilerplate))) = true := by
  induction pages generalizing st done previous with
  | nil =>
    simp only [List.foldlM_nil, Guard.pure_eq_ok] at hrun
    subst hrun
    simp [TableScan.pages, hrows]
  | cons lines pages ih =>
    simp only [List.foldlM_cons, Guard.bind_eq_ok] at hrun
    obtain ⟨st1, h1, h2⟩ := hrun
    simp only [List.map_cons, TableScan.pages]
    rcases stepPage_scan hi hf hrows hprev h1 with ⟨s', hs', hrows', hprev'⟩ | ⟨hs', hb⟩
    · rw [hs']
      exact ih (hi.stepPage h1) ((stepPage_keep hi h1).1 hf) hrows' hprev' h2
    · rw [hs']
      have hbad := (pages_keep (hi.stepPage h1) h2).2 hb
      simp [hbad.not_agree]

/-- How the line loop leaves the tables of a document. -/
theorem parseDrafts_tables {inp : StructureInput} (h : parseDrafts H U inp profile = .ok st) :
    TablesFilled st.drafts ∧ (RowsAgree st.drafts ↔ headersLead U inp profile = true) := by
  have hroot : ∀ (i : Nat) (d : NodeDraft), [rootDraft][i]? = some d → d = rootDraft := by
    intro i d hd
    simpa using List.mem_of_getElem? hd
  have hf : TablesFilled [rootDraft] := by
    rintro t ⟨d, hd, ht⟩
    rw [hroot t d hd] at ht
    cases ht
  have hr : RowsAgree [rootDraft] := by
    intro i p row table hrow ht
    rw [hroot i row hrow] at ht
    cases ht
  have hi := ParserState.Inv.init H
    (isBoilerplateLine (repeatedEdgeLines U (inp.pages.map sourceLines) profile))
  exact ⟨(pages_keep hi h).1 hf, pages_scan hi hf hr rfl h⟩

end

end CardRag
