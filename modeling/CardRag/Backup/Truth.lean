import CardRag.Backup.Flush
import CardRag.Lib.Runs

/-! # What receipts stand for

Receipts are put in by the transport of a row, and remote objects are not replaced. So the receipts tell the
truth in a run exactly where each body that is stored has the digest and the size of its row. -/

namespace CardRag.Backup

open Publish (Path Bytes)

/-! ### What the recorders leave alone -/

section
variable {sha256 : Bytes → Str} {s : State} {k : Known}

@[simp] theorem spoolFile_receipts (s : State) (source sha : Str) : (s.spoolFile source sha).receipts = s.receipts := by
  unfold State.spoolFile
  split <;> rfl

@[simp] theorem insertRow_receipts (s : State) (verified : Bool) (r : Row) : (s.insertRow verified r).receipts = s.receipts := rfl

@[simp] theorem deleteRow_receipts (s : State) (id : Str) : (s.deleteRow id).receipts = s.receipts := rfl

theorem deleteRows_receipts (rows : List Row) (s : State) :
    (rows.foldl (fun s r => s.deleteRow r.itemId) s).receipts = s.receipts := by
  induction rows generalizing s with
  | nil => rfl
  | cons r rows ih => exact ih _

theorem deleteVerified_receipts (rows : List Row) (s : State) : (rows.foldl deleteVerified s).receipts = s.receipts := by
  induction rows generalizing s with
  | nil => rfl
  | cons r rows ih => exact ih _

theorem register_receipts (a : Artifact) : (register s k a).1.receipts = s.receipts := by
  unfold register
  split
  · rfl
  · simp

theorem upsert_receipts (a : Artifact) : (upsert s k a).1.receipts = s.receipts := by
  unfold upsert
  split
  · rfl
  · have hdelete := deleteRows_receipts (s.pending.filter fun r =>
      r.remotePath = a.remotePath ∧ (r.sha256 ≠ a.sha256 ∨ r.sizeBytes ≠ a.sizeBytes)) s
    dsimp only
    split <;> split <;> simpa using hdelete

theorem registerBundle_receipts (root runId : Str) (now : Int) (infoPaths : List Path → List Path) (b : Bundle) :
    (registerBundle sha256 root runId now infoPaths s k b).1.receipts = s.receipts := by
  simp only [registerBundle, tag]
  rw [register_receipts]
  split
  · rw [register_receipts, register_receipts]
  · simp only [State.writeFile]
    rw [register_receipts, register_receipts]

theorem registerVerifiedOcrBundle_receipts (root runId : Str) (now : Int) (b : Bundle) :
    (registerVerifiedOcrBundle sha256 root runId now s k b).1.receipts = s.receipts := by
  simp only [registerVerifiedOcrBundle, tag]
  rw [upsert_receipts]
  simp only [State.writeFile]
  rw [upsert_receipts, upsert_receipts]

theorem recordAll_receipts {α : Type} {f : State → Known → α → State × Known}
    (hf : ∀ s k x, (f s k x).1.receipts = s.receipts) (xs : List α) (s : State) (k : Known) :
    (recordAll f s k xs).1.receipts = s.receipts := by
  induction xs generalizing s k with
  | nil => rfl
  | cons x xs ih => exact (ih _ _).trans (hf s k x)

theorem recordDocumentOcr_receipts (root runId : Str) (now : Int) (known : Known) (bundles : List Bundle) :
    (recordDocumentOcr sha256 root runId now s known bundles).receipts = s.receipts :=
  recordAll_receipts (fun _ _ b => registerBundle_receipts root runId now id b) bundles s known

theorem recordRunSuccess_receipts (root runId : Str) (now : Int) (e : RunEvidence) :
    (recordRunSuccess sha256 root runId now s e).receipts = s.receipts := by
  have hobj := recordAll_receipts (fun s k o => register_receipts (s := s) (k := k) (sealObject now o)) e.objects s (s.known root)
  unfold recordRunSuccess
  dsimp only
  split
  · exact (recordAll_receipts (fun _ _ b => registerVerifiedOcrBundle_receipts root runId now b) _ _ _).trans hobj
  · refine (recordAll_receipts (fun s k c => ?_) _ _ _).trans
      ((recordAll_receipts (fun _ _ b => registerBundle_receipts root runId now _ b) _ _ _).trans hobj)
    unfold registerCacheFile
    split
    · exact register_receipts _
    · rfl

end

/-! ### Truth -/

section
variable (sha256 : Bytes → Str)

/-- The remote bytes have the digest and the size of the receipt. -/
def Truthful (objects : List (Path × Bytes)) (r : Receipt) : Prop :=
  ∃ b ∈ PyList.get? objects r.remotePath, sha256 b = r.sha256 ∧ b.length = r.sizeBytes

instance (objects : List (Path × Bytes)) (r : Receipt) : Decidable (Truthful sha256 objects r) :=
  inferInstanceAs (Decidable (∃ b ∈ PyList.get? objects r.remotePath, sha256 b = r.sha256 ∧ b.length = r.sizeBytes))

/-- All receipts are truthful. -/
def ReceiptsTrue (y : System) : Prop := ∀ r ∈ y.ledger.receipts, Truthful sha256 y.remote.objects r

instance (y : System) : Decidable (ReceiptsTrue sha256 y) :=
  inferInstanceAs (Decidable (∀ r ∈ y.ledger.receipts, Truthful sha256 y.remote.objects r))

/-- The row that the next transport stores, and the bytes that it has read for it. -/
def stores (y : System) : Event → Option (Row × Bytes)
  | .transport answer =>
    match y.next with
    | some (f, row, _) =>
      match examine sha256 f.request { y.ledger with receipts := f.existing } y.ledger row with
      | .upload body => if (putBytes y.remote.objects row.remotePath body answer).2 then some (row, body) else none
      | _ => none
    | none => none
  | _ => none

/-- The bytes that are stored for a row are the bytes that were recorded. -/
def Unchanged (y : System) (e : Event) (_ : System) : Prop :=
  ∀ p ∈ stores sha256 y e, sha256 p.2 = p.1.sha256 ∧ p.2.length = p.1.sizeBytes

end

section
variable {sha256 : Bytes → Str} {y : System} {objects : List (Path × Bytes)} {p : Path} {body : Bytes} {answer : Answer}

theorem putBytes_keeps {q : Path} {b : Bytes} (h : PyList.get? objects q = some b) :
    PyList.get? (putBytes objects p body answer).1 q = some b := by
  have hins : PyList.get? objects p = none → PyList.get? (PyList.insert p body objects) q = some b := by
    intro hnone
    rw [PyList.get?_insert, if_neg]
    · exact h
    · rintro rfl
      rw [hnone] at h
      cases h
  unfold putBytes
  split
  · exact h
  · exact hins (by assumption)
  · exact hins (by assumption)
  · exact h

theorem putBytes_done (h : (putBytes objects p body answer).2 = true) :
    PyList.get? (putBytes objects p body answer).1 p = some body := by
  unfold putBytes at h ⊢
  split at h
  · rename_i old hold
    rw [hold]
    exact congrArg some (of_decide_eq_true h)
  · simp [PyList.get?_insert]
  · cases h
  · cases h

theorem Truthful.keep (p : Path) (body : Bytes) (answer : Answer) {r : Receipt} (h : Truthful sha256 objects r) :
    Truthful sha256 (putBytes objects p body answer).1 r := by
  obtain ⟨b, hb, hrest⟩ := h
  exact ⟨b, putBytes_keeps hb, hrest⟩

theorem mem_insertReceipt {s : State} {r r' : Receipt} (h : r' ∈ (s.insertReceipt r).receipts) : r' = r ∨ r' ∈ s.receipts := by
  rcases List.mem_append.1 h with h | h
  · exact .inr (List.mem_filter.1 h).1
  · exact .inl (List.mem_singleton.1 h)

/-- A transport of a row: what is in the ledger and on the remote afterwards. -/
theorem transport_cases (y : System) (f : Flush) (row : Row) (rest : List Row) (answer : Answer) :
    (∃ body, examine sha256 f.request { y.ledger with receipts := f.existing } y.ledger row = .upload body ∧
      (putBytes y.remote.objects row.remotePath body answer).2 = true ∧
      (transport sha256 y f row rest answer).ledger.receipts =
        (y.ledger.insertReceipt ⟨row.remotePath, f.request.root, row.sha256, row.sizeBytes⟩).receipts ∧
      (transport sha256 y f row rest answer).remote.objects = (putBytes y.remote.objects row.remotePath body answer).1) ∨
    ((∀ body, examine sha256 f.request { y.ledger with receipts := f.existing } y.ledger row = .upload body →
        (putBytes y.remote.objects row.remotePath body answer).2 = false) ∧
      (transport sha256 y f row rest answer).ledger.receipts = y.ledger.receipts ∧
      ∀ r, Truthful sha256 y.remote.objects r → Truthful sha256 (transport sha256 y f row rest answer).remote.objects r) := by
  unfold transport
  cases hx : examine sha256 f.request { y.ledger with receipts := f.existing } y.ledger row with
  | blocked | reuse | lost => exact .inr ⟨fun _ h => (by cases h), rfl, fun _ => id⟩
  | upload body =>
    dsimp only
    cases hput : putBytes y.remote.objects row.remotePath body answer with
    | mk objects done =>
      have hkeep : ∀ r, Truthful sha256 y.remote.objects r → Truthful sha256 objects r := fun r hr => by
        have hk := hr.keep row.remotePath body answer
        rw [hput] at hk
        exact hk
      cases done with
      | true => exact .inl ⟨body, rfl, by rw [hput], rfl, by rw [hput]⟩
      | false =>
        refine .inr ⟨fun body' h => ?_, rfl, hkeep⟩
        obtain rfl := Action.upload.inj h
        rw [hput]

/-- A step stores a body with its receipt, or leaves every receipt and what it stands for. -/
theorem step_receipts (y : System) (e : Event) :
    (∃ row body root answer, stores sha256 y e = some (row, body) ∧
      (putBytes y.remote.objects row.remotePath body answer).2 = true ∧
      (step sha256 y e).ledger.receipts =
        (y.ledger.insertReceipt ⟨row.remotePath, root, row.sha256, row.sizeBytes⟩).receipts ∧
      (step sha256 y e).remote.objects = (putBytes y.remote.objects row.remotePath body answer).1) ∨
    (stores sha256 y e = none ∧ (step sha256 y e).ledger.receipts = y.ledger.receipts ∧
      ∀ r, Truthful sha256 y.remote.objects r → Truthful sha256 (step sha256 y e).remote.objects r) := by
  cases e with
  | document root runId now known bundles => exact .inr ⟨rfl, recordDocumentOcr_receipts _ _ _ _ _, fun _ => id⟩
  | run root runId now evidence => exact .inr ⟨rfl, recordRunSuccess_receipts _ _ _ _, fun _ => id⟩
  | disk | stop | crash => exact .inr ⟨rfl, rfl, fun _ => id⟩
  | begin q probe readable =>
    refine .inr ⟨rfl, ?_⟩
    simp only [step, begin]
    split
    · exact ⟨rfl, fun _ => id⟩
    split
    · exact ⟨rfl, fun _ => id⟩
    split
    · exact ⟨rfl, fun _ => id⟩
    · exact ⟨rfl, fun _ => id⟩
  | transport answer =>
    simp only [step, stores]
    cases hnext : y.next with
    | none => exact .inr ⟨rfl, rfl, fun _ => id⟩
    | some next =>
      obtain ⟨f, row, rest⟩ := next
      dsimp only
      rcases @transport_cases sha256 y f row rest answer with ⟨body, hx, hput, hrec, hobj⟩ | ⟨hnone, hrec, hobj⟩
      · refine .inl ⟨row, body, f.request.root, answer, ?_, hput, hrec, hobj⟩
        rw [hx]
        simp [hput]
      · refine .inr ⟨?_, hrec, hobj⟩
        split
        · rename_i body hx
          rw [hnone body hx]
          rfl
        · rfl
  | publish done =>
    refine .inr ⟨rfl, ?_⟩
    simp only [step]
    split
    · unfold publish
      dsimp only
      split
      · split <;> exact ⟨rfl, fun _ => id⟩
      · exact ⟨rfl, fun _ => id⟩
    · exact ⟨rfl, fun _ => id⟩
  | settle =>
    refine .inr ⟨rfl, ?_⟩
    simp only [step]
    split
    · unfold settle
      refine ⟨?_, fun _ => id⟩
      dsimp only
      split
      · exact deleteVerified_receipts _ _
      · rfl
    · exact ⟨rfl, fun _ => id⟩
  | conclude readable =>
    refine .inr ⟨rfl, ?_⟩
    simp only [step]
    split <;> exact ⟨rfl, fun _ => id⟩

/-- From truthful receipts, the receipts after a step are truthful exactly where the stored bytes are unchanged. -/
theorem step_truth (h : ReceiptsTrue sha256 y) (e : Event) :
    ReceiptsTrue sha256 (step sha256 y e) ↔ Unchanged sha256 y e (step sha256 y e) := by
  rcases @step_receipts sha256 y e with ⟨row, body, root, answer, hst, hput, hrec, hobj⟩ | ⟨hst, hrec, hobj⟩
  · have hbody := putBytes_done hput
    constructor
    · intro htrue p hp
      obtain rfl : (row, body) = p := by simpa [hst] using hp
      have hmem : ⟨row.remotePath, root, row.sha256, row.sizeBytes⟩ ∈ (step sha256 y e).ledger.receipts := by
        rw [hrec]
        simp [State.insertReceipt]
      obtain ⟨b, hb, hsha, hsize⟩ := htrue _ hmem
      rw [hobj, hbody] at hb
      obtain rfl : body = b := by simpa using hb
      exact ⟨hsha, hsize⟩
    · intro hsame r hr
      rw [hrec] at hr
      rw [hobj]
      rcases mem_insertReceipt hr with rfl | hr
      · exact ⟨body, hbody, hsame (row, body) hst⟩
      · exact (h r hr).keep _ _ _
  · constructor
    · intro _ p hp
      simp [hst] at hp
    · intro _ r hr
      rw [hrec] at hr
      exact hobj r (h r hr)

end

instance (y y' : System) (e : Event) : Decidable (Unchanged sha256 y e y') :=
  inferInstanceAs (Decidable (∀ p ∈ stores sha256 y e, sha256 p.2 = p.1.sha256 ∧ p.2.length = p.1.sizeBytes))

/-- In a run that starts without receipts, every receipt tells the truth after every step exactly where every body that
a flush stores has the digest and the size of its row. -/
theorem receipts_true_iff (sha256 : Bytes → Str) (y : System) (hfresh : y.ledger.receipts = []) (events : List Event) :
    Along (step sha256) (fun _ _ y => ReceiptsTrue sha256 y) y events ↔ Along (step sha256) (Unchanged sha256) y events := by
  have hstart : ReceiptsTrue sha256 y := by
    intro r hr
    rw [hfresh] at hr
    cases hr
  exact Along.iff_of_inv (I := ReceiptsTrue sha256) (fun y e hi => ⟨step_truth hi e, fun hc => (step_truth hi e).2 hc⟩) hstart events

/-- Digests that are the text itself. -/
def plainSha (b : Bytes) : Str := b.map fun c => Char.ofNat c.toNat

/-- A file of the local OCR cache is recorded, changed, and backed up by an unscoped flush. -/
def changedFile : List Event :=
  [.disk [("f".toList, [97])] [], .run "root".toList "r".toList 0 ⟨[], [], [("k".toList, "ocr.md".toList, "f".toList)], false⟩,
    .disk [("f".toList, [98, 98])] [("a".toList, [98, 98])],
    .begin ⟨"root".toList, true, true, true, none, none⟩ true true, .transport .done]

def freshSystem : System := ⟨.empty, ⟨[], .absent⟩, none, []⟩

theorem receipt_of_changed_file :
    ¬ Along (step plainSha) (fun _ _ y => ReceiptsTrue plainSha y) freshSystem changedFile := by
  decide +kernel

/-- The same run, with the file left as it is. -/
def unchangedFile : List Event :=
  [.disk [("f".toList, [97])] [], .run "root".toList "r".toList 0 ⟨[], [], [("k".toList, "ocr.md".toList, "f".toList)], false⟩,
    .begin ⟨"root".toList, true, true, true, none, none⟩ true true, .transport .done]

theorem receipts_true_fresh :
    (runFrom (step plainSha) freshSystem unchangedFile).ledger.receipts.length = 1 ∧
      Along (step plainSha) (fun _ _ y => ReceiptsTrue plainSha y) freshSystem unchangedFile := by
  have hstored : Along (step plainSha) (Unchanged plainSha) freshSystem unchangedFile := by decide +kernel
  exact ⟨by decide +kernel, (receipts_true_iff plainSha freshSystem rfl unchangedFile).2 hstored⟩

end CardRag.Backup
