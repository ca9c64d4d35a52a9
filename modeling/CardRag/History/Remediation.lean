import CardRag.History.Supersession

/-! # Remediation of unresolved revisions (`unresolved_remediation.py`)

An entry of the unresolved ledger names a source and its bytes, and what becomes of it is read from the first
revision row of the two. A source that returned to earlier bytes has several such rows, and the first is not the
active one: the entry of a current revision is then excluded as a past one (`remediation_hides_iff`). -/

namespace CardRag.Remediation

/-! ### Entries and evidence -/

structure LedgerEntry where
  sourceId : Str
  pdfSha256 : Str
  reasonCodes : List Str

inductive Disposition where
  | currentError
  | pastExcluded
  | updatedToLatest
  | provisionalAcquired
deriving DecidableEq

/-- Product codes by issuer; `None` when there is no such evidence. -/
abbrev Products := Option (List (Str × List Str))

/-- The arguments of `analyze_unresolved_entry` besides the entry. `diskValid` is what
`verify_pdf_cache_object_disk` answers, and of a known source its lineage is read. -/
structure Evidence where
  knownSources : Option (List (Str × Lineage))
  selectedIssuers : Option (List Str)
  successfulIssuers : Option (List Str)
  currentDiscovery : Products
  currentAcquiredProducts : Products
  currentProcessedProducts : Products
  currentFailedProducts : Products
  currentUnsupportedProducts : Products
  diskValid : Str → Bool
  phase : Str

structure UnresolvedInventoryItem where
  sourceId : Str
  pdfSha256 : Str
  reasonCodes : List Str
  issuer : Option Str
  productCode : Option Str
  documentType : Option Str
  sourceExists : Bool
  knownSourceExists : Bool
  revisionId : Option Nat
  pdfCacheObjectExists : Bool
  pdfCacheObjectDiskValid : Bool
  isCurrentInCache : Bool
  productInCurrentDiscovery : Option Bool
  disposition : Disposition
  explanation : String
deriving DecidableEq

/-- `bool(products and issuer and product_code and product_code in products.get(issuer, set()))` -/
def listed (products : Products) (issuer productCode : Option Str) : Bool :=
  match products, issuer, productCode with
  | some products, some issuer, some productCode =>
    issuer ≠ [] && productCode ≠ [] && productCode ∈ (PyList.get? products issuer).getD []
  | _, _, _ => false

def sourceRow (st : WorkerState) (sourceId : Str) : Option PDFCacheSource :=
  st.sources.find? (·.identity.sourceId = sourceId)

/-- The rows of `WHERE source_id=? AND pdf_sha256=?`, which SQLite reads in the order of their ids. -/
def revisionRows (st : WorkerState) (sourceId pdfSha256 : Str) : List PDFCacheSourceRevision :=
  PyList.sortedBy (·.revisionId) (st.revisions.filter fun v => v.sourceId = sourceId ∧ v.pdfSha256 = pdfSha256)

/-! ### The analysis -/

section
variable (st : WorkerState) (entry : LedgerEntry) (e : Evidence)

/-- The lineage in the source row, or else in the known source. -/
def entryLineage : Option Lineage :=
  ((sourceRow st entry.sourceId).map (·.identity.lineage)).or
    (e.knownSources.bind fun known => PyList.get? known entry.sourceId)

def entryIssuer : Option Str := (entryLineage st entry e).map (·.issuer)

def entryProductCode : Option Str := (entryLineage st entry e).map (·.productCode)

def knownSourceExists : Bool := (e.knownSources.bind fun known => PyList.get? known entry.sourceId).isSome

/-- `rev_row`, by `fetchone()` -/
def entryRevision : Option PDFCacheSourceRevision := (revisionRows st entry.sourceId entry.pdfSha256).head?

def isCurrentInCache : Bool :=
  (entryRevision st entry).any (·.supersededAt = none) && !(sourceRow st entry.sourceId).any (·.supersededAt ≠ none)

def productInCurrentDiscovery : Option Bool :=
  match e.currentDiscovery, entryIssuer st entry e with
  | some discovery, some issuer =>
    (PyList.get? discovery issuer).map fun products =>
      (entryProductCode st entry e).any fun productCode => productCode ≠ [] && productCode ∈ products
  | _, _ => none

def isCurrentFailed : Bool := listed e.currentFailedProducts (entryIssuer st entry e) (entryProductCode st entry e)

def isCurrentUnsupported : Bool :=
  listed e.currentUnsupportedProducts (entryIssuer st entry e) (entryProductCode st entry e)

/-- `is_product_processed`; `none` without evidence. -/
def isProductProcessed : Option Bool :=
  e.currentProcessedProducts.map fun processed =>
    listed (some processed) (entryIssuer st entry e) (entryProductCode st entry e)

def isProductAcquired : Bool :=
  match e.currentAcquiredProducts with
  | some acquired => listed (some acquired) (entryIssuer st entry e) (entryProductCode st entry e)
  | none => productInCurrentDiscovery st entry e = some true && !isCurrentFailed st entry e

def isSelected : Bool :=
  match e.selectedIssuers with
  | none => true
  | some selected => (entryIssuer st entry e).any (· ∈ selected)

/-- `successful_issuers is not None and issuer is not None and issuer not in successful_issuers` -/
def isIssuerFailed : Bool :=
  match e.successfulIssuers with
  | none => false
  | some successful => (entryIssuer st entry e).any (· ∉ successful)

/-- The disposition of an entry and its explanation. -/
def disposition : Disposition × String :=
  if (sourceRow st entry.sourceId).isNone ∧ knownSourceExists entry e = false then
    (.currentError, "Unverified source identity not found in database or known sources; error preserved")
  else if isCurrentInCache st entry ∧ e.diskValid entry.pdfSha256 = false then
    (.currentError, "Active current cache revision object is missing or invalid on disk; error preserved")
  else if isSelected st entry e = false then
    (.pastExcluded, "Non-selected issuer historical unresolved identity excluded from active publication during " ++
      "scoped run; preserves serving documents without claiming product extinction")
  else if isIssuerFailed st entry e then
    (.currentError, "Selected issuer collection failed or incomplete; cannot determine current product status, " ++
      "error preserved")
  else if isCurrentFailed st entry e then
    (.currentError, "Product failed in current collection/processing; error preserved")
  else if isCurrentUnsupported st entry e then
    (.currentError, "Product is unsupported (DRM/ZIP) in current collection; degraded status, error preserved")
  else if isProductProcessed st entry e = some true then
    (.updatedToLatest, "Product active and verified post-OCR in current run; historical revision excluded in favor " ++
      "of verified current contract")
  else if e.currentDiscovery.isNone then
    if (entryRevision st entry).isNone then
      (.currentError, "Unverified revision identity not found in database source revisions; error preserved")
    else if isCurrentInCache st entry then
      (.currentError, "Active current cache revision cannot be excluded without crawler discovery verification")
    else (.pastExcluded, "Historical superseded revision excluded from active publication")
  else match productInCurrentDiscovery st entry e with
    | some false => (.pastExcluded, "Historical revision product absent from verified current crawler discovery; " ++
        "excluded from active publication")
    | some true =>
      if isCurrentFailed st entry e ∨ isCurrentUnsupported st entry e then
        (.currentError, "Product discovered but failed or unsupported in current run; error preserved")
      else match isProductProcessed st entry e with
        | some true => (.updatedToLatest, "Product active and verified post-OCR in current run; historical " ++
            "revision excluded in favor of verified current contract")
        | some false =>
          (.currentError, "Product discovered but not successfully processed/verified post-OCR; error preserved")
        | none =>
          if isProductAcquired st entry e then
            if e.phase = "expansion".toList ∨ e.phase = "collect".toList then
              (.provisionalAcquired, "Product discovered and downloaded, pending post-OCR verification")
            else (.updatedToLatest, "Product active and acquired in current run; historical revision excluded in " ++
              "favor of verified current contract")
          else (.currentError, "Product discovered but not successfully acquired; error preserved")
    | none => (.pastExcluded, "Unresolved historical identity excluded from active publication")

def analyzeUnresolvedEntry : UnresolvedInventoryItem where
  sourceId := entry.sourceId
  pdfSha256 := entry.pdfSha256
  reasonCodes := PyList.sortedBy id entry.reasonCodes
  issuer := entryIssuer st entry e
  productCode := entryProductCode st entry e
  documentType := (entryLineage st entry e).map (·.documentType)
  sourceExists := (sourceRow st entry.sourceId).isSome
  knownSourceExists := knownSourceExists entry e
  revisionId := (entryRevision st entry).map (·.revisionId)
  pdfCacheObjectExists := st.objects.any (·.pdfSha256 = entry.pdfSha256)
  pdfCacheObjectDiskValid := e.diskValid entry.pdfSha256
  isCurrentInCache := isCurrentInCache st entry
  productInCurrentDiscovery := productInCurrentDiscovery st entry e
  disposition := (disposition st entry e).1
  explanation := (disposition st entry e).2

end

/-! ### The remediated revisions -/

/-- `pdf_cache_remediated_revision`: the disposition for each source, PDF and reason. -/
abbrev Remediated := List ((Str × Str × Str) × Disposition)

instance : DecidableEq Remediated := inferInstance

def recordRemediatedRevision (t : Remediated) (sourceId pdfSha256 reasonCode : Str) (d : Disposition) :
    Except Raised Remediated := do
  raiseIf (isSourceId sourceId = false) (valueError "source_id is invalid")
  raiseIf (isSha256 pdfSha256 = false) (valueError "pdf_sha256 is invalid")
  raiseIf (d = .provisionalAcquired) (valueError "disposition is invalid")
  return PyList.insert (sourceId, pdfSha256, reasonCode) d t

/-- A row of `WHERE source_id=? AND pdf_sha256=?`, and of the reason when one is given. -/
def isRowOf (sourceId pdfSha256 : Str) (reasonCode : Option Str) (row : (Str × Str × Str) × Disposition) : Bool :=
  row.1.1 = sourceId && row.1.2.1 = pdfSha256 && reasonCode.all (· = row.1.2.2)

def isRevisionRemediated (t : Remediated) (sourceId pdfSha256 : Str) (reasonCode : Option Str) : Bool :=
  if isSourceId sourceId = false ∨ isSha256 pdfSha256 = false then false
  else
    let rows := t.filter (isRowOf sourceId pdfSha256 reasonCode)
    if rows = [] then false
    else if rows.any (·.2 = .currentError) then false
    else rows.all fun row => row.2 = .updatedToLatest ∨ row.2 = .pastExcluded

/-- One reason of an item; the number counts what is excluded. -/
def applyReason (item : UnresolvedInventoryItem) (applied : Nat × Remediated) (reason : Str) :
    Except Raised (Nat × Remediated) :=
  match item.disposition with
  | .updatedToLatest | .pastExcluded => do
    let t ← recordRemediatedRevision applied.2 item.sourceId item.pdfSha256 reason item.disposition
    return (applied.1 + 1, t)
  | .currentError => do
    let t ← recordRemediatedRevision applied.2 item.sourceId item.pdfSha256 reason .currentError
    return (applied.1, t)
  | .provisionalAcquired => return applied

/-- `apply_unresolved_remediation`: the number it returns, and the table. -/
def applyUnresolvedRemediation (t : Remediated) (items : List UnresolvedInventoryItem)
    (onlyDispositions : Option (List Disposition)) : Except Raised (Nat × Remediated) :=
  items.foldlM (fun applied item =>
    if onlyDispositions.any (item.disposition ∉ ·) then return applied
    else item.reasonCodes.foldlM (applyReason item) applied) (0, t)

/-! ### Current revisions -/

/-- The source has an active revision with these bytes, and is not superseded itself. -/
def Current (st : WorkerState) (sourceId pdfSha256 : Str) : Prop :=
  (∃ v ∈ st.revisions, v.sourceId = sourceId ∧ v.pdfSha256 = pdfSha256 ∧ v.supersededAt = none) ∧
    ∃ s ∈ st.sources, s.identity.sourceId = sourceId ∧ s.supersededAt = none

instance (st : WorkerState) (sourceId pdfSha256 : Str) : Decidable (Current st sourceId pdfSha256) :=
  inferInstanceAs (Decidable (_ ∧ _))

/-- The source had these bytes before, and others since. -/
def Left (st : WorkerState) (sourceId pdfSha256 : Str) : Prop :=
  ∃ v ∈ st.revisions, v.sourceId = sourceId ∧ v.pdfSha256 = pdfSha256 ∧ v.supersededAt ≠ none

instance (st : WorkerState) (sourceId pdfSha256 : Str) : Decidable (Left st sourceId pdfSha256) :=
  inferInstanceAs (Decidable (∃ v ∈ st.revisions, _))

/-- The issuer of the entry is selected, and its collection succeeded. -/
def Eligible (st : WorkerState) (entry : LedgerEntry) (e : Evidence) : Prop :=
  isSelected st entry e = true ∧ isIssuerFailed st entry e = false

/-- An active revision is the newest of its source. -/
def ActiveNewest (revisions : List PDFCacheSourceRevision) : Prop :=
  ∀ v ∈ revisions, ∀ w ∈ revisions, v.supersededAt = none → w.sourceId = v.sourceId → w.revisionId ≤ v.revisionId

section
variable {revisions revisions' : List PDFCacheSourceRevision} {digests : List Str} {bound : List BindRequest}
  {r : BindRequest} {observed verified : Str} {revisionId : Nat} {g : PDFCacheSourceRevision → PDFCacheSourceRevision}

theorem ActiveNewest.map (h : ActiveNewest revisions) (hg : KeepsIdentity g)
    (hactive : ∀ v, (g v).supersededAt = none → v.supersededAt = none) : ActiveNewest (revisions.map g) := by
  intro v' hv' w' hw' hnone hid
  obtain ⟨v, hv, rfl⟩ := List.mem_map.1 hv'
  obtain ⟨w, hw, rfl⟩ := List.mem_map.1 hw'
  rw [hg.sourceId, hg.sourceId] at hid
  rw [hg.revisionId, hg.revisionId]
  exact h v hv w hw (hactive v hnone) hid

/-- The row of new bytes is newer than every other, and the only active one of its source. -/
theorem ActiveNewest.append (h : ActiveNewest revisions) {new : PDFCacheSourceRevision}
    (hnew : new.revisionId = WorkerState.nextRowid revisions) (hnewNone : new.supersededAt = none)
    (hone : ∃ v, activeOf (revisions ++ [new]) new.sourceId = [v]) : ActiveNewest (revisions ++ [new]) := by
  intro v hv w hw hnone hid
  have hle : ∀ u ∈ revisions, u.revisionId ≤ new.revisionId := fun u hu => hnew ▸ (lt_nextRowid hu).le
  rcases List.mem_append.1 hv with hold | hnewest
  · rcases List.mem_append.1 hw with hw | hw
    · exact h v hold w hw hnone hid
    · obtain rfl := List.mem_singleton.1 hw
      obtain ⟨u, hu⟩ := hone
      have hv : v ∈ activeOf (revisions ++ [w]) w.sourceId := mem_activeOf.2 ⟨hv, hid.symm, hnone⟩
      have hw : w ∈ activeOf (revisions ++ [w]) w.sourceId := mem_activeOf.2 ⟨List.mem_append_right _ hw, rfl, hnewNone⟩
      rw [hu, List.mem_singleton] at hv hw
      exact (hw.trans hv.symm) ▸ le_rfl
  · obtain rfl := List.mem_singleton.1 hnewest
    rcases List.mem_append.1 hw with hw | hw
    · exact hle w hw
    · exact (List.mem_singleton.1 hw) ▸ le_rfl

theorem ActiveNewest.bind (h : ActiveNewest revisions) (hinv : RevisionInv revisions digests bound)
    (hdigest : r.pdfSha256 ∈ digests)
    (hr : WorkerState.bindRevision revisions r observed verified = .ok (revisionId, revisions')) :
    ActiveNewest revisions' := by
  obtain ⟨-, u, hu, -⟩ := hinv.bind hdigest hr
  unfold WorkerState.bindRevision at hr
  cases hfind : revisions.find? (fun v => v.sourceId = r.sourceId ∧ v.supersededAt = none) with
  | none =>
    rw [hfind] at hr
    obtain ⟨rfl, rfl⟩ := Prod.mk.inj (Except.ok.inj hr)
    exact h.append rfl rfl ⟨u, hu⟩
  | some current =>
    rw [hfind] at hr
    dsimp only at hr
    split at hr
    · simp only [Guard.bind_eq_ok, Guard.pure_eq_ok, Prod.mk.injEq] at hr
      obtain ⟨-, -, rfl, rfl⟩ := hr
      refine h.map (by refine ⟨?_, ?_, ?_, ?_⟩ <;> intro v <;> split <;> rfl) fun v hv => ?_
      split at hv <;> exact hv
    · obtain ⟨rfl, rfl⟩ := Prod.mk.inj (Except.ok.inj hr)
      refine (h.map ?_ ?_).append rfl rfl ⟨u, hu⟩
      · refine ⟨?_, ?_, ?_, ?_⟩ <;> intro v <;> split <;> rfl
      · intro v hv
        split at hv
        · cases hv
        · exact hv

theorem ActiveNewest.call {b : Bindings} (h : ActiveNewest b.state.revisions) (hinv : CacheInv b.state b.bound)
    (c : Command) : ActiveNewest (b.call c).state.revisions := by
  cases c with
  | record request =>
    show ActiveNewest ((b.state.recordPdfCacheObject request).toOption.getD b.state).revisions
    cases hr : b.state.recordPdfCacheObject request with
    | error e => exact h
    | ok st =>
      unfold WorkerState.recordPdfCacheObject at hr
      simp only [Guard.bind_eq_ok] at hr
      obtain ⟨-, -, -, -, -, -, timestamp, -, hr⟩ := hr
      cases hfind : b.state.objects.find? (·.pdfSha256 = request.pdfSha256) with
      | none =>
        rw [hfind] at hr
        obtain rfl := Except.ok.inj hr
        exact h
      | some existing =>
        rw [hfind] at hr
        simp only [Guard.bind_eq_ok, Guard.pure_eq_ok] at hr
        obtain ⟨-, -, rfl⟩ := hr
        exact h
  | bind request =>
    show ActiveNewest (((b.state.bindTransaction request).toOption.map (·.2)).getD b.state).revisions
    cases ht : b.state.bindTransaction request with
    | error e => exact h
    | ok p =>
      obtain ⟨revisionId, st⟩ := p
      unfold WorkerState.bindTransaction at ht
      simp only [Guard.bind_eq_ok, Guard.pure_eq_ok, Prod.mk.injEq, Prod.exists] at ht
      obtain ⟨_, -, observed, -, verified, -, _, hobject, sources, -, _, _, hrevisions, rfl, rfl⟩ := ht
      exact h.bind hinv.revisions (checkObject_eq_ok hobject) hrevisions

/-- In every state that calls of the PDF cache lead to. -/
theorem activeNewest_after (commands : List Command) : ActiveNewest (Bindings.after commands).state.revisions := by
  have hfold : ∀ b : Bindings, CacheInv b.state b.bound → ActiveNewest b.state.revisions →
      ActiveNewest (commands.foldl Bindings.call b).state.revisions := by
    induction commands with
    | nil => exact fun b _ h => h
    | cons c cs ih => exact fun b hb h => ih (b.call c) (hb.call c) (h.call hb c)
  exact hfold ⟨.empty, []⟩ .empty (fun _ hv => nomatch hv)

end

/-! ### The first row -/

section
variable {st : WorkerState} {entry : LedgerEntry} {e : Evidence} {s p : Str} {bound : List BindRequest}

theorem mem_revisionRows {v : PDFCacheSourceRevision} :
    v ∈ revisionRows st s p ↔ v ∈ st.revisions ∧ v.sourceId = s ∧ v.pdfSha256 = p := by
  rw [revisionRows, PyList.mem_sortedBy, List.mem_filter, decide_eq_true_eq]

theorem exists_first {v : PDFCacheSourceRevision} (hv : v ∈ revisionRows st s p) :
    ∃ u, (revisionRows st s p).head? = some u ∧ u ∈ revisionRows st s p ∧
      ∀ w ∈ revisionRows st s p, u.revisionId ≤ w.revisionId := by
  have hsorted : (revisionRows st s p).Pairwise fun a b => a.revisionId ≤ b.revisionId := PyList.sortedBy_pairwise _ _
  cases hrows : revisionRows st s p with
  | nil =>
    rw [hrows] at hv
    cases hv
  | cons u rows =>
    rw [hrows] at hsorted
    refine ⟨u, rfl, List.mem_cons_self, fun w hw => ?_⟩
    rcases List.mem_cons.1 hw with rfl | hw
    · exact le_rfl
    · exact (List.pairwise_cons.1 hsorted).1 w hw

/-- Of the rows of a current revision the first is active when the source never left these bytes. -/
theorem first_active_iff (hinv : CacheInv st bound) (hnewest : ActiveNewest st.revisions) (h : Current st s p) :
    ∃ u, (revisionRows st s p).head? = some u ∧ (u.supersededAt = none ↔ ¬ Left st s p) := by
  obtain ⟨⟨v, hv, hvs, hvp, hnone⟩, -⟩ := h
  obtain ⟨u, hhead, hu, hfirst⟩ := exists_first (mem_revisionRows.2 ⟨hv, hvs, hvp⟩)
  obtain ⟨humem, hus, hup⟩ := mem_revisionRows.1 hu
  refine ⟨u, hhead, fun hactive => ?_, fun hleft => ?_⟩
  · rintro ⟨w, hw, hws, hwp, hsuperseded⟩
    have hle : u.revisionId ≤ w.revisionId := hfirst w (mem_revisionRows.2 ⟨hw, hws, hwp⟩)
    have hge : w.revisionId ≤ u.revisionId := hnewest u humem w hw hactive (hws.trans hus.symm)
    rw [hinv.revisions.eq_of_revisionId hw humem (le_antisymm hge hle)] at hsuperseded
    exact hsuperseded hactive
  · by_contra hactive
    exact hleft ⟨u, humem, hus, hup, hactive⟩

theorem sourceRow_eq (hinv : CacheInv st bound) {row : PDFCacheSource} (h : row ∈ st.sources)
    (hid : row.identity.sourceId = s) : sourceRow st s = some row := by
  cases hfind : sourceRow st s with
  | none => exact absurd hid (by simpa using List.find?_eq_none.1 hfind row h)
  | some found =>
    have hcond : found.identity.sourceId = s := by simpa using List.find?_some hfind
    rw [hinv.sources.eq_of_sourceId (List.mem_of_find?_eq_some hfind) h (hcond.trans hid.symm)]

/-- What the flags of a current revision say. -/
theorem current_flags (hinv : CacheInv st bound) (hnewest : ActiveNewest st.revisions)
    (h : Current st entry.sourceId entry.pdfSha256) :
    (sourceRow st entry.sourceId).isSome = true ∧ (entryRevision st entry).isSome = true ∧
      (isCurrentInCache st entry = true ↔ ¬ Left st entry.sourceId entry.pdfSha256) := by
  obtain ⟨u, hhead, hactive⟩ := first_active_iff hinv hnewest h
  obtain ⟨-, row, hrow, hid, hnone⟩ := h
  have hsource := sourceRow_eq hinv hrow hid
  refine ⟨by rw [hsource]; rfl, by rw [entryRevision, hhead]; rfl, ?_⟩
  rw [← hactive, isCurrentInCache, entryRevision, hhead, hsource]
  simp [hnone]

/-! ### The disposition -/

/-- Without discovery and processed products an entry is excluded or an error. -/
theorem disposition_eq (hd : e.currentDiscovery = none) (hp : e.currentProcessedProducts = none)
    (h : Eligible st entry e) : (disposition st entry e).1 = .pastExcluded ∧
        ((sourceRow st entry.sourceId).isSome = true ∨ knownSourceExists entry e = true) ∧
        (entryRevision st entry).isSome = true ∧ isCurrentInCache st entry = false ∧
        isCurrentFailed st entry e = false ∧ isCurrentUnsupported st entry e = false ∨
      (disposition st entry e).1 = .currentError ∧
        ((sourceRow st entry.sourceId).isSome = true → (entryRevision st entry).isSome = true →
          isCurrentInCache st entry = true ∨ isCurrentFailed st entry e = true ∨
            isCurrentUnsupported st entry e = true) := by
  obtain ⟨hselected, hfailed⟩ := h
  have hprocessed : isProductProcessed st entry e = none := by rw [isProductProcessed, hp]; rfl
  unfold disposition
  simp only [hselected, hfailed, hprocessed, hd, Option.isNone_none, Bool.true_eq_false, Bool.false_eq_true,
    reduceCtorEq, if_false, if_true]
  split
  · rename_i hunknown
    exact .inr ⟨rfl, fun hsource => by simp [Option.isNone_iff_eq_none.1 hunknown.1] at hsource⟩
  rename_i hknown
  split
  · rename_i hcurrent
    exact .inr ⟨rfl, fun _ _ => .inl hcurrent.1⟩
  split
  · rename_i hfailed
    exact .inr ⟨rfl, fun _ _ => .inr (.inl hfailed)⟩
  rename_i hfailed
  split
  · rename_i hunsupported
    exact .inr ⟨rfl, fun _ _ => .inr (.inr hunsupported)⟩
  rename_i hunsupported
  split
  · rename_i hrevision
    exact .inr ⟨rfl, fun _ hsome => by simp [Option.isNone_iff_eq_none.1 hrevision] at hsome⟩
  rename_i hrevision
  split
  · rename_i hcurrent
    exact .inr ⟨rfl, fun _ _ => .inl hcurrent⟩
  · rename_i hcurrent
    refine .inl ⟨rfl, ?_, ?_, Bool.not_eq_true _ ▸ hcurrent, Bool.not_eq_true _ ▸ hfailed,
      Bool.not_eq_true _ ▸ hunsupported⟩
    · cases hsource : sourceRow st entry.sourceId with
      | none => exact .inr (by simpa [hsource] using hknown)
      | some row => exact .inl rfl
    · cases hrow : entryRevision st entry with
      | none => exact absurd (by rw [hrow]; rfl) hrevision
      | some row => rfl

/-- The source did not leave the bytes of a current revision, or its product failed or is unsupported. -/
def Kept (st : WorkerState) (entry : LedgerEntry) (e : Evidence) : Prop :=
  Current st entry.sourceId entry.pdfSha256 → Left st entry.sourceId entry.pdfSha256 →
    isCurrentFailed st entry e = true ∨ isCurrentUnsupported st entry e = true

theorem disposition_kept (hinv : CacheInv st bound) (hnewest : ActiveNewest st.revisions)
    (hd : e.currentDiscovery = none) (hp : e.currentProcessedProducts = none) (h : Eligible st entry e)
    (hkept : Kept st entry e) (hcurrent : Current st entry.sourceId entry.pdfSha256) :
    (disposition st entry e).1 = .currentError := by
  obtain ⟨-, -, hflag⟩ := current_flags hinv hnewest hcurrent
  rcases disposition_eq hd hp h with ⟨-, -, -, hnot, hfailed, hunsupported⟩ | ⟨herror, -⟩
  · have hleft : Left st entry.sourceId entry.pdfSha256 := by
      by_contra hnever
      rw [hflag.2 hnever] at hnot
      cases hnot
    rcases hkept hcurrent hleft with hyes | hyes
    · rw [hfailed] at hyes
      cases hyes
    · rw [hunsupported] at hyes
      cases hyes
  · exact herror

end

/-! ### The table -/

section
variable {κ α : Type} [DecidableEq κ] {k : κ} {v : α} {d : List (κ × α)}

theorem mem_insert_self : (k, v) ∈ PyList.insert k v d := by
  induction d with
  | nil => exact List.mem_singleton_self _
  | cons row d ih =>
    obtain ⟨k', v'⟩ := row
    rw [PyList.insert]
    split
    · exact List.mem_cons_self
    · exact List.mem_cons_of_mem _ ih

/-- The rows of other keys stay. -/
theorem filter_insert {q : κ × α → Bool} (hq : ∀ v, q (k, v) = false) :
    (PyList.insert k v d).filter q = d.filter q := by
  induction d with
  | nil => simp [PyList.insert, hq]
  | cons row d ih =>
    obtain ⟨k', v'⟩ := row
    rw [PyList.insert]
    split
    · rename_i heq
      rw [List.filter_cons, List.filter_cons, heq, hq, hq]
      rfl
    · rw [List.filter_cons, List.filter_cons, ih]

end

section
variable {t t' : Remediated} {s p : Str} {reasonCode : Option Str} {item : UnresolvedInventoryItem}

/-- A revision is not remediated while one of its reasons is an error. -/
theorem not_remediated_of_error {row : (Str × Str × Str) × Disposition} (hrow : row ∈ t)
    (hof : isRowOf s p reasonCode row = true) (herror : row.2 = .currentError) :
    isRevisionRemediated t s p reasonCode = false := by
  have hmem : row ∈ t.filter (isRowOf s p reasonCode) := List.mem_filter.2 ⟨hrow, hof⟩
  have hany : (t.filter (isRowOf s p reasonCode)).any (·.2 = .currentError) = true :=
    List.any_eq_true.2 ⟨row, hmem, by simpa using herror⟩
  unfold isRevisionRemediated
  split
  · rfl
  · simp only [hany, if_true]
    split <;> rfl

theorem remediated_congr (h : t'.filter (isRowOf s p reasonCode) = t.filter (isRowOf s p reasonCode)) :
    isRevisionRemediated t' s p reasonCode = isRevisionRemediated t s p reasonCode := by
  unfold isRevisionRemediated
  rw [h]

/-- A row of another revision, or an error, remediates nothing. -/
theorem remediated_of_insert {s' p' reason : Str} {d : Disposition} (hd : s' = s → p' = p → d = .currentError)
    (h : isRevisionRemediated (PyList.insert (s', p', reason) d t) s p reasonCode = true) :
    isRevisionRemediated t s p reasonCode = true := by
  cases hof : isRowOf s p reasonCode ((s', p', reason), d) with
  | false => exact (remediated_congr (filter_insert fun _ => hof)).symm.trans h
  | true =>
    have hid : s' = s ∧ p' = p := by
      simp only [isRowOf, Bool.and_eq_true, decide_eq_true_eq] at hof
      exact ⟨hof.1.1, hof.1.2⟩
    rw [not_remediated_of_error mem_insert_self hof (hd hid.1 hid.2)] at h
    cases h

theorem recordRemediatedRevision_eq_ok {s' p' reason : Str} {d : Disposition}
    (h : recordRemediatedRevision t s' p' reason d = .ok t') : t' = PyList.insert (s', p', reason) d t := by
  unfold recordRemediatedRevision at h
  simp only [Guard.bind_eq_ok, Guard.pure_eq_ok] at h
  obtain ⟨-, -, -, -, -, -, rfl⟩ := h
  rfl

theorem applyReason_remediated {applied applied' : Nat × Remediated} {reason : Str}
    (hitem : item.sourceId = s → item.pdfSha256 = p → item.disposition = .currentError)
    (h : applyReason item applied reason = .ok applied')
    (hr : isRevisionRemediated applied'.2 s p reasonCode = true) :
    isRevisionRemediated applied.2 s p reasonCode = true := by
  unfold applyReason at h
  split at h
  · simp only [Guard.bind_eq_ok, Guard.pure_eq_ok] at h
    obtain ⟨t', ht, rfl⟩ := h
    rw [recordRemediatedRevision_eq_ok ht] at hr
    exact remediated_of_insert hitem hr
  · simp only [Guard.bind_eq_ok, Guard.pure_eq_ok] at h
    obtain ⟨t', ht, rfl⟩ := h
    rw [recordRemediatedRevision_eq_ok ht] at hr
    exact remediated_of_insert hitem hr
  · simp only [Guard.bind_eq_ok, Guard.pure_eq_ok] at h
    obtain ⟨t', ht, rfl⟩ := h
    rw [recordRemediatedRevision_eq_ok ht] at hr
    exact remediated_of_insert (fun _ _ => rfl) hr
  · rw [Guard.pure_eq_ok] at h
    exact h ▸ hr

/-- What a step of a fold keeps, the fold keeps. -/
theorem foldlM_keeps {α β ε : Type} {f : β → α → Except ε β} {P : β → Prop} {xs : List α}
    (hf : ∀ x ∈ xs, ∀ b b', f b x = .ok b' → P b' → P b) {b b' : β} (h : xs.foldlM f b = .ok b') (hP : P b') : P b := by
  induction xs generalizing b with
  | nil =>
    rw [List.foldlM_nil, Guard.pure_eq_ok] at h
    exact h ▸ hP
  | cons x xs ih =>
    rw [List.foldlM_cons, Guard.bind_eq_ok] at h
    obtain ⟨c, hc, h⟩ := h
    exact hf x List.mem_cons_self b c hc (ih (fun y hy => hf y (List.mem_cons_of_mem _ hy)) h)

/-- A revision whose items are all errors is remediated only when it was before. -/
theorem apply_remediated {items : List UnresolvedInventoryItem} {only : Option (List Disposition)} {n : Nat}
    (hitems : ∀ item ∈ items, item.sourceId = s → item.pdfSha256 = p → item.disposition = .currentError)
    (h : applyUnresolvedRemediation t items only = .ok (n, t'))
    (hr : isRevisionRemediated t' s p reasonCode = true) : isRevisionRemediated t s p reasonCode = true := by
  refine @foldlM_keeps _ _ _ _ (fun applied => isRevisionRemediated applied.2 s p reasonCode = true) _ ?_ _ _ h hr
  intro item hitem applied applied' happly hafter
  split at happly
  · rw [Guard.pure_eq_ok] at happly
    exact happly ▸ hafter
  · refine @foldlM_keeps _ _ _ _ (fun applied => isRevisionRemediated applied.2 s p reasonCode = true) _ ?_ _ _ happly
      hafter
    exact fun reason _ b b' => applyReason_remediated (hitems item hitem)

end

/-- In every state of the cache an entry of a selected and successful issuer, analysed without discovery and
processed products, is excluded while its revision is current exactly when the source left these bytes and came
back, and the product neither failed nor is unsupported; where no entry is such, applying the items of any ledger
remediates no current revision. -/
theorem remediation_hides_iff (commands : List Command) {e : Evidence} (hd : e.currentDiscovery = none)
    (hp : e.currentProcessedProducts = none) :
    let st := (Bindings.after commands).state
    (∀ entry, Eligible st entry e →
      (((analyzeUnresolvedEntry st entry e).disposition = .pastExcluded ∨
        (analyzeUnresolvedEntry st entry e).disposition = .updatedToLatest →
          ¬ Current st entry.sourceId entry.pdfSha256) ↔ Kept st entry e)) ∧
    ∀ entries : List LedgerEntry, (∀ entry ∈ entries, Eligible st entry e ∧ Kept st entry e) →
      ∀ t only n t', applyUnresolvedRemediation t (entries.map (analyzeUnresolvedEntry st · e)) only = .ok (n, t') →
        ∀ s p reasonCode, Current st s p → isRevisionRemediated t' s p reasonCode = true →
          isRevisionRemediated t s p reasonCode = true := by
  intro st
  have hinv : CacheInv st _ := CacheInv.after commands
  have hnewest : ActiveNewest st.revisions := activeNewest_after commands
  refine ⟨fun entry h => ⟨fun hproperty hcurrent hleft => ?_, fun hkept hexcluded hcurrent => ?_⟩, ?_⟩
  · obtain ⟨hsource, hrevision, hflag⟩ := current_flags hinv hnewest hcurrent
    rcases disposition_eq hd hp h with ⟨hexcluded, -⟩ | ⟨-, herror⟩
    · exact absurd hcurrent (hproperty (.inl hexcluded))
    · exact (herror hsource hrevision).resolve_left fun hin => hflag.1 hin hleft
  · have herror : (disposition st entry e).1 = .currentError :=
      disposition_kept hinv hnewest hd hp h hkept hcurrent
    change (disposition st entry e).1 = _ ∨ (disposition st entry e).1 = _ at hexcluded
    rw [herror] at hexcluded
    simp at hexcluded
  · intro entries hentries t only n t' happly s p reasonCode hcurrent hr
    refine apply_remediated ?_ happly hr
    intro item hitem hs hp'
    obtain ⟨entry, hentry, rfl⟩ := List.mem_map.1 hitem
    obtain ⟨heligible, hkept⟩ := hentries entry hentry
    change entry.sourceId = s at hs
    change entry.pdfSha256 = p at hp'
    exact disposition_kept hinv hnewest hd hp heligible hkept (hs ▸ hp' ▸ hcurrent)

/-! ### A source that returns to its first bytes -/

def noon : Moment := .aware ⟨2026, 1, 1, 12, 0, 0, 0, by decide⟩

def digestOf (c : Char) : Str := List.replicate 64 c

def card : PDFSourceIdentity where
  sourceId := "source_".toList ++ digestOf '1'
  lineage := ⟨"issuer".toList, "CARD".toList, "terms".toList⟩
  sourceUrl := "https://issuer/card".toList
  sourceVersion := "1".toList
  sourcePostId := []
  discoverySha256 := digestOf '1'

def recordOf (c : Char) : Command :=
  .record ⟨digestOf c, 1000, 3, "objects/sha256/".toList ++ [c, c] ++ '/' :: digestOf c, noon⟩

def bindOf (c : Char) : Command :=
  .bind ⟨card, digestOf c, 1000, 3, "https://issuer/card.pdf".toList, none, none, false, noon, noon⟩

/-- `A`, then `B`, then `A` again. -/
def reverted : List Command := [recordOf 'a', recordOf 'b', bindOf 'a', bindOf 'b', bindOf 'a']

def noEvidence : Evidence where
  knownSources := none
  selectedIssuers := none
  successfulIssuers := none
  currentDiscovery := none
  currentAcquiredProducts := none
  currentProcessedProducts := none
  currentFailedProducts := none
  currentUnsupportedProducts := none
  diskValid := fun _ => true
  phase := "run".toList

def cardEntry (c : Char) : LedgerEntry := ⟨card.sourceId, digestOf c, ["metadata_missing".toList]⟩

theorem remediation_hides_iff_once : let st := (Bindings.after [recordOf 'a', bindOf 'a']).state
    Current st card.sourceId (digestOf 'a') ∧
      (disposition st (cardEntry 'a') noEvidence).1 ≠ .pastExcluded := by
  intro st
  have hcurrent : Current st card.sourceId (digestOf 'a') := by decide +kernel
  have hkept : Kept st (cardEntry 'a') noEvidence := fun _ hleft => absurd hleft (by decide +kernel)
  have heligible : Eligible st (cardEntry 'a') noEvidence := ⟨rfl, rfl⟩
  refine ⟨hcurrent, fun hexcluded => ?_⟩
  exact ((remediation_hides_iff [recordOf 'a', bindOf 'a'] (e := noEvidence) rfl rfl).1 _ heligible).2 hkept
    (.inl hexcluded) hcurrent

/-- The third revision is current, and its entry is excluded: the revision counts as remediated. -/
theorem remediation_hides_reverted : let st := (Bindings.after reverted).state
    Eligible st (cardEntry 'a') noEvidence ∧ Current st card.sourceId (digestOf 'a') ∧
      (analyzeUnresolvedEntry st (cardEntry 'a') noEvidence).disposition = .pastExcluded ∧
      ∃ t, applyUnresolvedRemediation [] [analyzeUnresolvedEntry st (cardEntry 'a') noEvidence] none = .ok (1, t) ∧
        isRevisionRemediated t card.sourceId (digestOf 'a') none = true := by
  refine ⟨⟨rfl, rfl⟩, by decide +kernel, by decide +kernel,
    [((card.sourceId, digestOf 'a', "metadata_missing".toList), .pastExcluded)], ?_, ?_⟩
  · decide +kernel
  · decide +kernel

end CardRag.Remediation
