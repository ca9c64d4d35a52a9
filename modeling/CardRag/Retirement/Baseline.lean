import CardRag.Core
import CardRag.Lib.JsonRead
import CardRag.Lib.Runs

/-! # The rolling corpus baseline (`corpus_baseline.py`)

After a publication the corpus is recorded under the digest of its canonical JSON; the next run compares itself with
the newest record, and old records are pruned. `load_newest`: whatever was recorded and pruned, what is loaded is the
record written last, as it was recorded, once its run and generation are bound. -/

namespace CardRag.Baselines

open Guard

/-- `CorpusBaselineDocument`. -/
structure Document where
  documentId : Str
  sourceId : Str
  issuer : Str
  productCode : Str
  documentType : Str
  temporalStatus : Str
  pdfSha256 : Str
deriving DecidableEq

/-- The arguments of `record_corpus_baseline`; `issuerCounts` is a mapping. -/
structure Corpus where
  generationId : Str
  runId : Str
  corpusSha256 : Str
  contractSha256 : Str
  documents : List Document
  issuerCounts : List (Str × Int)
  nodup_issuers : (issuerCounts.map (·.1)).Nodup

/-- `CorpusBaseline`. -/
structure CorpusBaseline where
  generationId : Str
  runId : Str
  corpusSha256 : Str
  contractSha256 : Str
  documents : List Document
  issuerCounts : List (Str × Int)
  baselineSha256 : Str
deriving DecidableEq

def current : Str := "current".toList

def historical : Str := "historical".toList

def CorpusBaseline.docIds (b : CorpusBaseline) (status : Str) : List Str :=
  (b.documents.filter (·.temporalStatus = status)).map (·.documentId)

def CorpusBaseline.currentDocIds (b : CorpusBaseline) : List Str := b.docIds current

def CorpusBaseline.historicalDocIds (b : CorpusBaseline) : List Str := b.docIds historical

/-- `^[A-Za-z0-9_.:-]{1,128}$`. -/
def isId (value : Str) : Bool :=
  value ≠ [] && decide (value.length ≤ 128) && value.all fun c => c.isAlphanum || c ∈ ['_', '.', ':', '-']

/-! ### Recording -/

section
variable (c : Corpus)

def checkField (value field : Str) : Except String Unit :=
  raiseIf (value = [] ∨ 256 < value.length) ("baseline_" ++ String.ofList field ++ "_invalid")

def checkDocument (d : Document) : Except String Unit := do
  raiseIf (¬ isId d.documentId ∨ ¬ isId d.sourceId) "baseline_identity_invalid"
  raiseIf (d.temporalStatus ≠ current ∧ d.temporalStatus ≠ historical) "baseline_temporal_status_invalid"
  raiseIf (¬ isSha256 d.pdfSha256) "baseline_pdf_sha_invalid"

/-- The loop over the documents, with the identities that were seen. -/
def checkDocuments : (seen : List Str) → List Document → Except String Unit
  | _, [] => .ok ()
  | seen, d :: ds => do
    raiseIf (d.documentId ∈ seen) "baseline_duplicate_document"
    checkDocument d
    checkDocuments (d.documentId :: seen) ds

/-- `_validate_inputs`. -/
def validateInputs : Except String Unit := do
  checkField c.generationId "generation_id".toList
  checkField c.runId "run_id".toList
  checkField c.corpusSha256 "corpus_sha256".toList
  checkField c.contractSha256 "contract_sha256".toList
  raiseIf (¬ isSha256 c.corpusSha256 ∨ ¬ isSha256 c.contractSha256) "baseline_sha256_invalid"
  checkDocuments [] c.documents
  c.issuerCounts.forM fun e => raiseIf (¬ isId e.1 ∨ e.2 < 0) "baseline_issuer_counts_invalid"

def schemaVersion : Str := "cardrag.corpus-baseline.v1".toList

def Document.payload (d : Document) : Json := .obj [
  ("document_id".toList, .str d.documentId),
  ("document_type".toList, .str d.documentType),
  ("issuer".toList, .str d.issuer),
  ("pdf_sha256".toList, .str d.pdfSha256),
  ("product_code".toList, .str d.productCode),
  ("source_id".toList, .str d.sourceId),
  ("temporal_status".toList, .str d.temporalStatus)]

def countOf (status : Str) (documents : List Document) : Nat := documents.countP (·.temporalStatus = status)

def ordered : List Document := PyList.sortedBy (·.documentId) c.documents

def orderedCounts : List (Str × Int) := PyList.sortedBy (·.1) c.issuerCounts

/-- `baseline_payload`, whose counts are not negative. -/
def payload : Json := .obj [
  ("contract_sha256".toList, .str c.contractSha256),
  ("corpus_sha256".toList, .str c.corpusSha256),
  ("counts".toList, .obj [
    ("current".toList, .num (countOf current (ordered c))),
    ("historical".toList, .num (countOf historical (ordered c))),
    ("total".toList, .num (ordered c).length)]),
  ("documents".toList, .arr ((ordered c).map Document.payload)),
  ("generation_id".toList, .str c.generationId),
  ("issuer_counts".toList, .obj ((orderedCounts c).map fun e => (e.1, .num e.2.toNat))),
  ("run_id".toList, .str c.runId),
  ("schema_version".toList, .str schemaVersion)]

/-- `canonical_json_bytes(baseline_payload(…))`, as text. -/
def content : Str := (payload c).render

end

def utf8Length (text : Str) : Nat := (text.map Char.utf8Size).sum

def maxBaselineBytes : Nat := 64 * 1024 * 1024

/-- A regular file of the directory that is named by a digest. -/
structure File where
  name : Str
  mtime : Nat
  content : Str
deriving DecidableEq

abbrev Directory := List File

/-- `record_corpus_baseline`; a file that is there stays as it is. -/
def record (H : Sha256) (dir : Directory) (now : Nat) (c : Corpus) : Except String Directory := do
  validateInputs c
  raiseIf (maxBaselineBytes < utf8Length (content c)) "baseline_limit_exceeded"
  let digest := H.hexdigest (content c)
  match dir.find? (·.name = digest) with
  | none => .ok (dir ++ [⟨digest, now, content c⟩])
  | some f => do
    raiseIf (utf8Length f.content ≠ utf8Length (content c)) "baseline_conflict"
    raiseIf (H.hexdigest f.content ≠ digest) "baseline_conflict"
    .ok dir

/-! ### Loading -/

/-- `str(value)` and `int(value)` of what is no text and no number. -/
structure Conversions where
  text : Json → Str
  integer : Json → Option Int

namespace Conversions
variable (K : Conversions)

def str : Json → Str
  | .str s => s
  | v => K.text v

def int : Json → Option Int
  | .num n => some n
  | v => K.integer v

end Conversions

def invalid : String := "corpus_baseline_invalid"

/-- `raw[key]`; the last of equal keys counts. -/
def item (value : Json) (key : Str) : Except String Json :=
  match value with
  | .obj fields => (PyList.get? fields.reverse key).elim (.error invalid) .ok
  | _ => .error invalid

section
variable (K : Conversions)

def text (value : Json) (key : Str) : Except String Str := do
  let v ← item value key
  pure (K.str v)

def parseDocument (d : Json) : Except String Document := do
  let documentId ← text K d "document_id".toList
  let sourceId ← text K d "source_id".toList
  let issuer ← text K d "issuer".toList
  let productCode ← text K d "product_code".toList
  let documentType ← text K d "document_type".toList
  let temporalStatus ← text K d "temporal_status".toList
  let pdfSha256 ← text K d "pdf_sha256".toList
  pure ⟨documentId, sourceId, issuer, productCode, documentType, temporalStatus, pdfSha256⟩

/-- `for d in raw["documents"]` over an array. -/
def parseDocuments (raw : Json) : Except String (List Document) := do
  match ← item raw "documents".toList with
  | .arr ds => ds.mapM (parseDocument K)
  | _ => .error invalid

/-- `{str(k): int(v) for k, v in …}`. -/
def parseIssuerCounts (raw : Json) : Except String (List (Str × Int)) := do
  match ← item raw "issuer_counts".toList with
  | .obj fields =>
    let counts ← fields.mapM fun e => (K.int e.2).elim (.error invalid) fun n => .ok (e.1, n)
    pure (counts.foldl (fun d e => PyList.insert e.1 e.2 d) [])
  | _ => .error invalid

/-- `counts.get(key) != value`. -/
def countIs (counts : Json) (key : Str) (value : Nat) : Bool :=
  match item counts key with
  | .ok (.num n) => n == value
  | _ => false

/-- `_parse_baseline`. -/
def parseBaseline (content : Str) : Except String CorpusBaseline := do
  match Json.loads content with
  | none => .error invalid
  | some raw =>
    match item raw "schema_version".toList with
    | .ok (.str version) => raiseIf (version ≠ schemaVersion) invalid
    | _ => .error invalid
    let documents ← parseDocuments K raw
    let issuerCounts ← parseIssuerCounts K raw
    let generationId ← text K raw "generation_id".toList
    let runId ← text K raw "run_id".toList
    let corpusSha256 ← text K raw "corpus_sha256".toList
    let contractSha256 ← text K raw "contract_sha256".toList
    let b : CorpusBaseline := ⟨generationId, runId, corpusSha256, contractSha256, documents, issuerCounts, []⟩
    let counts ← item raw "counts".toList
    raiseIf (¬ (documents.map (·.documentId)).Nodup ∨
      (∃ d ∈ documents, ¬ isSha256 d.pdfSha256 ∨ d.temporalStatus ≠ current ∧ d.temporalStatus ≠ historical) ∨
      (∃ i ∈ b.currentDocIds, i ∈ b.historicalDocIds) ∨ ¬ countIs counts "total".toList documents.length ∨
      ¬ countIs counts "current".toList (countOf current documents) ∨
      ¬ countIs counts "historical".toList (countOf historical documents)) invalid
    pure b

/-- A row of `publish`. -/
structure PublishRow where
  status : Str
  runId : Str
  corpusSha256 : Str
  contractSha256 : Str

structure State where
  runStatus : Str → Option Str
  publishByGeneration : Str → Option PublishRow

def succeeded : Str := "succeeded".toList

def ready : Str := "ready".toList

def checkBound (s : State) (b : CorpusBaseline) : Except String Unit := do
  raiseIf (s.runStatus b.runId ≠ some succeeded) "corpus_baseline_unbound"
  match s.publishByGeneration b.generationId with
  | none => .error "corpus_baseline_unbound"
  | some p =>
    raiseIf (p.status ≠ ready ∨ p.runId ≠ b.runId ∨ p.corpusSha256 ≠ b.corpusSha256 ∨
      p.contractSha256 ≠ b.contractSha256) "corpus_baseline_unbound"

/-- Newest first. -/
def newestFirst (dir : Directory) : Directory :=
  PyList.sortedBy (fun f => toLex (OrderDual.toDual f.mtime, f.name)) dir

/-- `load_corpus_baseline`. -/
def load (H : Sha256) (dir : Directory) (s : State) : Except String (Option CorpusBaseline) :=
  match (newestFirst dir).head? with
  | none => .ok none
  | some f => do
    raiseIf (H.hexdigest f.content ≠ f.name) invalid
    let b ← parseBaseline K f.content
    checkBound s b
    pure (some { b with baselineSha256 := f.name })

end

/-- `prune_corpus_baselines`. -/
def prune (dir : Directory) (keep : Nat) : Except String Directory := do
  raiseIf (keep < 1) "baseline_keep_invalid"
  let removed := ((newestFirst dir).drop keep).map (·.name)
  pure (dir.filter (·.name ∉ removed))

/-! ### What is recorded can be read -/

/-- What a record says. -/
def recorded (H : Sha256) (c : Corpus) : CorpusBaseline :=
  ⟨c.generationId, c.runId, c.corpusSha256, c.contractSha256, ordered c, orderedCounts c, H.hexdigest (content c)⟩

theorem checkDocuments_ok {seen : List Str} {ds : List Document} (h : checkDocuments seen ds = .ok ()) :
    (ds.map (·.documentId)).Nodup ∧ ∀ d ∈ ds, d.documentId ∉ seen ∧ checkDocument d = .ok () := by
  induction ds generalizing seen with
  | nil => simp
  | cons d ds ih =>
    simp only [checkDocuments, bind_eq_ok, exists_unit, raiseIf_eq_ok] at h
    obtain ⟨hnew, hd, hds⟩ := h
    obtain ⟨hnodup, hall⟩ := ih hds
    refine ⟨List.nodup_cons.2 ⟨fun hmem => ?_, hnodup⟩, List.forall_mem_cons.2 ⟨⟨hnew, hd⟩, fun e he => ?_⟩⟩
    · obtain ⟨e, he, heq⟩ := List.mem_map.1 hmem
      exact (hall e he).1 (heq ▸ List.mem_cons_self)
    · exact ⟨fun hseen => (hall e he).1 (List.mem_cons_of_mem _ hseen), (hall e he).2⟩

theorem checkDocument_ok {d : Document} (h : checkDocument d = .ok ()) :
    (d.temporalStatus = current ∨ d.temporalStatus = historical) ∧ isSha256 d.pdfSha256 = true := by
  simp only [checkDocument, bind_eq_ok, exists_unit, raiseIf_eq_ok, not_and_or, not_not] at h
  exact ⟨h.2.1, h.2.2⟩

section
variable {c : Corpus} (K : Conversions)

theorem validated (h : validateInputs c = .ok ()) : ((ordered c).map (·.documentId)).Nodup ∧
    (∀ d ∈ ordered c, (d.temporalStatus = current ∨ d.temporalStatus = historical) ∧ isSha256 d.pdfSha256 = true) ∧
    ∀ e ∈ c.issuerCounts, 0 ≤ e.2 := by
  simp only [validateInputs, bind_eq_ok, exists_unit, forM_eq_ok, raiseIf_eq_ok] at h
  obtain ⟨-, -, -, -, -, hdocs, hcounts⟩ := h
  obtain ⟨hnodup, hall⟩ := checkDocuments_ok hdocs
  refine ⟨?_, fun d hd => checkDocument_ok (hall d (PyList.mem_sortedBy.1 hd)).2, fun e he => ?_⟩
  · exact ((PyList.sortedBy_perm _ c.documents).map _).nodup_iff.2 hnodup
  · exact not_lt.1 fun h => hcounts e he (.inr h)

theorem parseDocument_payload (d : Document) : parseDocument K d.payload = .ok d := by
  rfl

theorem parseDocuments_payload : parseDocuments K (payload c) = .ok (ordered c) := by
  have hitem : item (payload c) "documents".toList = .ok (.arr ((ordered c).map Document.payload)) := rfl
  rw [parseDocuments, hitem]
  refine mapM_eq_ok.2 ?_
  rw [List.forall₂_map_left_iff]
  exact List.forall₂_same.2 fun d _ => parseDocument_payload K d

theorem foldl_insert_of_nodup {α : Type} {d : List (Str × α)} (h : (d.map (·.1)).Nodup) :
    d.foldl (fun d e => PyList.insert e.1 e.2 d) [] = d := by
  induction d using List.reverseRecOn with
  | nil => rfl
  | append_singleton d e ih =>
    rw [List.map_append, List.nodup_append] at h
    rw [List.foldl_append, ih h.1]
    exact PyList.insert_of_notMem fun hmem => h.2.2 _ hmem _ (by simp) rfl

theorem parseIssuerCounts_payload (h : ∀ e ∈ c.issuerCounts, 0 ≤ e.2) :
    parseIssuerCounts K (payload c) = .ok (orderedCounts c) := by
  have hitem : item (payload c) "issuer_counts".toList =
      .ok (.obj ((orderedCounts c).map fun e => (e.1, .num e.2.toNat))) := rfl
  have hread : ((orderedCounts c).map fun e => (e.1, Json.num e.2.toNat)).mapM (fun e =>
      (K.int e.2).elim (.error invalid) fun n => (.ok (e.1, n) : Except String (Str × Int))) = .ok (orderedCounts c) := by
    refine mapM_eq_ok.2 ?_
    rw [List.forall₂_map_left_iff]
    refine List.forall₂_same.2 fun e he => ?_
    have hpos := h e (PyList.mem_sortedBy.1 he)
    simp [Conversions.int, Int.toNat_of_nonneg hpos]
  have hnodup : ((orderedCounts c).map (·.1)).Nodup :=
    ((PyList.sortedBy_perm _ c.issuerCounts).map _).nodup_iff.2 c.nodup_issuers
  rw [parseIssuerCounts, hitem, ok_bind]
  dsimp only
  rw [hread, ok_bind, foldl_insert_of_nodup hnodup]
  rfl

/-- The round trip. -/
theorem parseBaseline_content (h : validateInputs c = .ok ()) : parseBaseline K (content c) =
    .ok ⟨c.generationId, c.runId, c.corpusSha256, c.contractSha256, ordered c, orderedCounts c, []⟩ := by
  obtain ⟨hnodup, hdocs, hcounts⟩ := validated h
  have hversion : item (payload c) "schema_version".toList = .ok (.str schemaVersion) := rfl
  have hgeneration : text K (payload c) "generation_id".toList = .ok c.generationId := rfl
  have hrun : text K (payload c) "run_id".toList = .ok c.runId := rfl
  have hcorpus : text K (payload c) "corpus_sha256".toList = .ok c.corpusSha256 := rfl
  have hcontract : text K (payload c) "contract_sha256".toList = .ok c.contractSha256 := rfl
  have hitem : item (payload c) "counts".toList = .ok (.obj [
      ("current".toList, .num (countOf current (ordered c))),
      ("historical".toList, .num (countOf historical (ordered c))),
      ("total".toList, .num (ordered c).length)]) := rfl
  have hdisjoint : ∀ d ∈ ordered c, d.temporalStatus = current → ∀ e ∈ ordered c, e.temporalStatus = historical →
      e.documentId ≠ d.documentId := by
    intro d hd hcurrent e he hhistorical heq
    have hsame := List.inj_on_of_nodup_map hnodup he hd heq
    rw [hsame, hcurrent] at hhistorical
    exact absurd hhistorical (by decide)
  have hcheck : ¬ (¬ ((ordered c).map (·.documentId)).Nodup ∨
      (∃ d ∈ ordered c, ¬ isSha256 d.pdfSha256 ∨ d.temporalStatus ≠ current ∧ d.temporalStatus ≠ historical) ∨
      (∃ i ∈ ((ordered c).filter (·.temporalStatus = current)).map (·.documentId),
        i ∈ ((ordered c).filter (·.temporalStatus = historical)).map (·.documentId))) := by
    rintro (h | ⟨d, hd, hsha | ⟨hcurrent, hhistorical⟩⟩ | ⟨i, hi, hi'⟩)
    · exact h hnodup
    · exact hsha (hdocs d hd).2
    · exact (hdocs d hd).1.elim hcurrent hhistorical
    · obtain ⟨d, hd, rfl⟩ := List.mem_map.1 hi
      obtain ⟨e, he, heq⟩ := List.mem_map.1 hi'
      simp only [List.mem_filter, decide_eq_true_eq] at hd he
      exact hdisjoint d hd.1 hd.2 e he.1 he.2 heq
  rw [parseBaseline, content, Json.loads_render]
  dsimp only
  rw [hversion]
  dsimp only
  rw [raiseIf, if_neg (not_not.2 rfl), ok_bind, parseDocuments_payload, ok_bind, parseIssuerCounts_payload K hcounts, ok_bind,
    hgeneration, ok_bind, hrun, ok_bind, hcorpus, ok_bind, hcontract, ok_bind, hitem, ok_bind]
  have hall := not_or.1 hcheck
  rw [raiseIf, if_neg]
  · rfl
  · rintro (h | h | h | h | h | h)
    · exact hall.1 h
    · exact hall.2 (.inl h)
    · exact hall.2 (.inr h)
    · exact h (beq_self_eq_true (ordered c).length)
    · exact h (beq_self_eq_true (countOf current (ordered c)))
    · exact h (beq_self_eq_true (countOf historical (ordered c)))

end

/-! ### The directory over its runs -/

/-- `clock` is the time of the file system, and `newest` what the last file that was written records. -/
structure Store where
  dir : Directory
  clock : Nat
  newest : Option Corpus

def Store.empty : Store := ⟨[], 0, none⟩

inductive Op where
  /-- The clock has gone on between two records. -/
  | record (elapsed : Nat) (c : Corpus)
  | prune (keep : Nat)

def Store.step (H : Sha256) (s : Store) : Op → Store
  | .record elapsed c =>
    match record H s.dir (s.clock + elapsed + 1) c with
    | .ok dir => ⟨dir, s.clock + elapsed + 1, if dir = s.dir then s.newest else some c⟩
    | .error _ => { s with clock := s.clock + elapsed + 1 }
  | .prune keep =>
    match prune s.dir keep with
    | .ok dir => { s with dir := dir }
    | .error _ => s

/-- The file of the newest record, after all others. -/
def Store.Newest (dir : Directory) (c : Corpus) (f : File) : Prop :=
  f ∈ dir ∧ f.content = content c ∧ ∀ g ∈ dir, g ≠ f → g.mtime < f.mtime

structure Store.Inv (H : Sha256) (s : Store) : Prop where
  names : ∀ f ∈ s.dir, f.name = H.hexdigest f.content
  nodup : (s.dir.map (·.name)).Nodup
  past : ∀ f ∈ s.dir, f.mtime ≤ s.clock
  empty : s.newest = none → s.dir = []
  newest : ∀ c, s.newest = some c → validateInputs c = .ok () ∧ ∃ f, Newest s.dir c f

/-- A record writes its file, or finds it there. -/
theorem record_cases {H : Sha256} {dir dir' : Directory} {now : Nat} {c : Corpus} (h : record H dir now c = .ok dir') :
    validateInputs c = .ok () ∧ (dir' = dir ∨
      (∀ f ∈ dir, f.name ≠ H.hexdigest (content c)) ∧ dir' = dir ++ [⟨H.hexdigest (content c), now, content c⟩]) := by
  simp only [record, bind_eq_ok, exists_unit] at h
  obtain ⟨hvalid, -, h⟩ := h
  refine ⟨hvalid, ?_⟩
  split at h
  · rename_i hnone
    cases h
    exact .inr ⟨fun f hf => by simpa using List.find?_eq_none.1 hnone f hf, rfl⟩
  · simp only [bind_eq_ok, exists_unit] at h
    obtain ⟨-, -, h⟩ := h
    cases h
    exact .inl rfl

/-- The file that is newer than all others is the first. -/
theorem head_newestFirst {dir : Directory} {f : File} (hf : f ∈ dir) (hnew : ∀ g ∈ dir, g ≠ f → g.mtime < f.mtime) :
    ∃ rest, newestFirst dir = f :: rest := by
  have hperm : (newestFirst dir).Perm dir := PyList.sortedBy_perm _ dir
  have hsorted := PyList.sortedBy_pairwise (fun f : File => toLex (OrderDual.toDual f.mtime, f.name)) dir
  change (newestFirst dir).Pairwise _ at hsorted
  cases hdir : newestFirst dir with
  | nil =>
    rw [hdir] at hperm
    exact absurd (hperm.mem_iff.2 hf) List.not_mem_nil
  | cons g rest =>
    rw [hdir] at hperm hsorted
    obtain rfl | hrest := List.mem_cons.1 (hperm.mem_iff.2 hf)
    · exact ⟨rest, rfl⟩
    · by_cases hg : g = f
      · exact ⟨rest, by rw [hg]⟩
      · have hle := (List.pairwise_cons.1 hsorted).1 f hrest
        have hlt := hnew g (hperm.mem_iff.1 List.mem_cons_self) hg
        have hmtime : f.mtime ≤ g.mtime := by
          obtain hlt' | ⟨heq, -⟩ := Prod.Lex.toLex_le_toLex.1 hle
          · exact le_of_lt hlt'
          · exact (OrderDual.toDual_inj.1 heq).ge
        omega

theorem prune_mem {dir dir' : Directory} {keep : Nat} (h : prune dir keep = .ok dir') :
    0 < keep ∧ dir' = dir.filter fun f => f.name ∉ ((newestFirst dir).drop keep).map (·.name) := by
  simp only [prune, bind_eq_ok, exists_unit, raiseIf_eq_ok, pure_eq_ok] at h
  exact ⟨by omega, h.2.symm⟩

namespace Store
variable {H : Sha256} {s : Store}

theorem inv_empty (H : Sha256) : Inv H .empty where
  names := by simp [empty]
  nodup := by simp [empty]
  past := by simp [empty]
  empty _ := rfl
  newest c h := by cases h

theorem Inv.record (h : Inv H s) {elapsed : Nat} {c : Corpus} {dir : Directory}
    (hrec : Baselines.record H s.dir (s.clock + elapsed + 1) c = .ok dir) :
    Inv H ⟨dir, s.clock + elapsed + 1, if dir = s.dir then s.newest else some c⟩ := by
  have hlater (f : File) (hf : f ∈ s.dir) : f.mtime < s.clock + elapsed + 1 := by
    have := h.past f hf
    omega
  obtain ⟨hvalid, rfl | ⟨hnew, rfl⟩⟩ := record_cases hrec
  · rw [if_pos rfl]
    exact ⟨h.names, h.nodup, fun f hf => (hlater f hf).le, h.empty, h.newest⟩
  · rw [if_neg (by simp)]
    refine ⟨fun f hf => ?_, ?_, fun f hf => ?_, fun h => ?_, fun c' hc => ?_⟩
    · obtain hf | hf := List.mem_append.1 hf
      · exact h.names f hf
      · rw [List.mem_singleton.1 hf]
    · rw [List.map_append, List.nodup_append]
      refine ⟨h.nodup, by simp, fun name hname other hother heq => ?_⟩
      obtain ⟨f, hf, rfl⟩ := List.mem_map.1 hname
      obtain ⟨g, hg, rfl⟩ := List.mem_map.1 hother
      rw [List.mem_singleton.1 hg] at heq
      exact hnew f hf heq
    · obtain hf | hf := List.mem_append.1 hf
      · exact (hlater f hf).le
      · rw [List.mem_singleton.1 hf]
    · cases h
    · cases hc
      refine ⟨hvalid, _, List.mem_append_right _ (List.mem_singleton_self _), rfl, fun g hg hne => ?_⟩
      obtain hg | hg := List.mem_append.1 hg
      · exact hlater g hg
      · exact absurd (List.mem_singleton.1 hg) hne

/-- The newest file has the first place, so it is never dropped. -/
theorem Inv.prune (h : Inv H s) {keep : Nat} {dir : Directory} (hprune : Baselines.prune s.dir keep = .ok dir) :
    Inv H { s with dir := dir } := by
  obtain ⟨hkeep, rfl⟩ := prune_mem hprune
  refine ⟨fun f hf => h.names f (List.mem_of_mem_filter hf), ?_, fun f hf => h.past f (List.mem_of_mem_filter hf),
    fun hnone => ?_, fun c hc => ?_⟩
  · exact h.nodup.sublist (List.filter_sublist.map _)
  · rw [h.empty hnone]
    rfl
  · obtain ⟨hvalid, f, hf, hcontent, hnewest⟩ := h.newest c hc
    refine ⟨hvalid, f, List.mem_filter.2 ⟨hf, ?_⟩, hcontent, fun g hg => hnewest g (List.mem_of_mem_filter hg)⟩
    obtain ⟨rest, hrest⟩ := head_newestFirst hf hnewest
    have hnodup : ((newestFirst s.dir).map (·.name)).Nodup := ((PyList.sortedBy_perm _ s.dir).map _).nodup_iff.2 h.nodup
    obtain ⟨keep, rfl⟩ := Nat.exists_eq_succ_of_ne_zero hkeep.ne'
    rw [hrest, List.map_cons, List.nodup_cons] at hnodup
    rw [hrest, List.drop_succ_cons, decide_eq_true_eq]
    exact fun hmem => hnodup.1 (List.map_subset _ (List.drop_subset ..) hmem)

theorem Inv.step (h : Inv H s) (o : Op) : Inv H (s.step H o) := by
  cases o with
  | record elapsed c =>
    simp only [Store.step]
    split
    · rename_i dir hrec
      exact h.record hrec
    · exact ⟨h.names, h.nodup, fun f hf => (h.past f hf).trans (by dsimp only; omega), h.empty, h.newest⟩
  | prune keep =>
    simp only [Store.step]
    split
    · rename_i dir hprune
      exact h.prune hprune
    · exact h

theorem inv_run (H : Sha256) (ops : List Op) : Inv H (runFrom (Store.step H) .empty ops) :=
  (Along.of_step (P := fun _ _ _ => True) (fun _ o h => ⟨h.step o, trivial⟩) (inv_empty H) ops).2

end Store

/-- What is loaded is the newest record, as it was recorded; an unbound one is refused, and nothing older is taken. -/
theorem load_newest (H : Sha256) (K : Conversions) (ops : List Op) (s : State) :
    load K H (runFrom (Store.step H) .empty ops).dir s = (runFrom (Store.step H) .empty ops).newest.elim (.ok none) fun c =>
      (checkBound s (recorded H c)).map fun _ => some (recorded H c) := by
  have h := Store.inv_run H ops
  generalize runFrom (Store.step H) .empty ops = w at h
  cases hnewest : w.newest with
  | none =>
    rw [h.empty hnewest]
    rfl
  | some c =>
    obtain ⟨hvalid, f, hf, hcontent, hlast⟩ := h.newest c hnewest
    obtain ⟨rest, hrest⟩ := head_newestFirst hf hlast
    have hname : f.name = H.hexdigest (content c) := by rw [h.names f hf, hcontent]
    rw [load, hrest, List.head?_cons]
    dsimp only
    rw [raiseIf, if_neg (not_not.2 (h.names f hf).symm), ok_bind, hcontent, parseBaseline_content K hvalid, ok_bind, hname]
    rfl

end CardRag.Baselines
