import CardRag.Core
import CardRag.Lib.Recency
import CardRag.Lib.Runs

/-! # The vectors of a generation (`embed_views`, `embedding_cache_v5`, `BoundedVectorFetchMemo`)

The texts of the views are looked up in the embedding cache, and the texts that are not there go to the provider in
bounded batches. An attempt may fail anywhere; what it stored stays, and the next attempt asks for the rest. The export
then reads every vector again, through a bounded memo. `sealed_vectors_load`: once an attempt succeeds, every view reads
back the vector that was sealed for it, whatever attempts follow; `memo_agrees`: the memo changes no reading. -/

namespace CardRag.Embedding

open Guard

/-- The profile, with the codec of vectors `V`: `encode` is `_encode_embedding_cache_v5`, and `valid` the check of finite
values and norm of `_validate_embedding_cache_v5_blob`, which what is encoded passes. -/
structure Profile (V : Type) where
  profileId : Str
  cacheNamespace : Str
  dimension : Nat
  maximumTokens : Nat
  tokenCounter : Str → Nat
  encode : V → Except Raised (List UInt8)
  valid : List UInt8 → Bool
  sha256 : List UInt8 → Str
  encode_valid : ∀ v blob, encode v = .ok blob → blob.length = dimension * 4 ∧ valid blob = true

/-- A row of `embedding_cache_v5` without its key. -/
structure CacheRow where
  profileId : Str
  inputSha256 : Str
  dimension : Nat
  embedding : List UInt8

abbrev Cache := List (Str × CacheRow)

/-- A derived view: its text as the provider formats it, and whether its issuer is selected. -/
structure View where
  formatted : Str
  inputSha256 : Str
  selected : Bool

def runtimeError (message : String) : Raised := ⟨.runtimeError, message⟩

variable {V : Type} (H : Sha256) (P : Profile V)

/-- `embedding_cache_key(profile, kind="document", …)`. -/
def cacheKey (formatted : Str) : Str × Str :=
  (H.canonical (.obj [("cache_namespace".toList, .str P.cacheNamespace), ("input_kind".toList, .str "document".toList),
    ("input_sha256".toList, .str (H.hexdigest formatted)),
    ("schema_version".toList, .str "cardrag.embedding-cache-key.v5".toList)]), H.hexdigest formatted)

/-! ### The cache -/

def checkRow (inputSha256 : Str) (validateNorm : Bool) (row : CacheRow) : Except Raised CacheRow := do
  raiseIf (row.profileId ≠ P.profileId ∨ row.inputSha256 ≠ inputSha256 ∨ row.dimension ≠ P.dimension)
    (runtimeError "v5 embedding cache key is bound to a different profile or input")
  raiseIf (row.embedding.length ≠ row.dimension * 4)
    (runtimeError "v5 embedding cache blob length does not match its dimension")
  raiseIf (validateNorm ∧ ¬ P.valid row.embedding) (runtimeError "v5 embedding cache contains a non-normalized vector")
  pure row

def getEmbedding (cache : Cache) (key inputSha256 : Str) (validateNorm : Bool) : Except Raised (Option CacheRow) :=
  match PyList.get? cache key with
  | none => .ok none
  | some row => some <$> checkRow P inputSha256 validateNorm row

/-- `put_embedding_v5`: a row that is there stays. -/
def putEmbedding (cache : Cache) (key inputSha256 : Str) (v : V) : Cache × Except Raised CacheRow :=
  match P.encode v with
  | .error e => (cache, .error e)
  | .ok embedding =>
    let cache' := if (PyList.get? cache key).isSome then cache
      else cache ++ [(key, ⟨P.profileId, inputSha256, P.dimension, embedding⟩)]
    (cache', do
      match ← getEmbedding P cache' key inputSha256 true with
      | none => .error (runtimeError "v5 embedding cache write did not persist")
      | some row =>
        raiseIf (row.embedding ≠ embedding)
          (runtimeError "v5 embedding cache key collision contains different vector bytes")
        pure row)

/-! ### Batches -/

/-- The batches so far, the one that is filled, and its tokens. -/
structure Filling where
  batches : List (List Nat)
  pending : List Nat
  pendingTokens : Nat

def Filling.add (formattedTokenCounts : List Nat) (maximumTokens maximumBatchSize : Nat) (s : Filling) (index : Nat) :
    Except Raised Filling :=
  match formattedTokenCounts[index]? with
  | none => .error (valueError "embedding miss index is outside the token ledger")
  | some tokenCount =>
    if tokenCount < 1 ∨ maximumTokens < tokenCount then
      .error (valueError "embedding input exceeds its exact batch token cap")
    else if s.pending ≠ [] ∧ (maximumBatchSize ≤ s.pending.length ∨ maximumTokens < s.pendingTokens + tokenCount) then
      .ok ⟨s.batches ++ [s.pending], [index], tokenCount⟩
    else .ok ⟨s.batches, s.pending ++ [index], s.pendingTokens + tokenCount⟩

/-- `_embedding_miss_batches`. -/
def embeddingMissBatches (misses formattedTokenCounts : List Nat) (maximumTokens maximumBatchSize : Nat) :
    Except Raised (List (List Nat)) := do
  raiseIf (maximumTokens < 1 ∨ maximumBatchSize < 1) (valueError "embedding batch limits must be positive")
  let s ← misses.foldlM (Filling.add formattedTokenCounts maximumTokens maximumBatchSize) ⟨[], [], 0⟩
  pure (if s.pending = [] then s.batches else s.batches ++ [s.pending])

/-! ### An attempt -/

/-- The cache keys and input digests of the views, after those of `bound`. -/
def bindViews : (bound : List (Str × Str)) → List View → Except Raised (List (Str × Str))
  | bound, [] => .ok bound
  | bound, v :: views => do
    raiseIf (P.tokenCounter v.formatted < 1 ∨ P.maximumTokens < P.tokenCounter v.formatted)
      (runtimeError "derived view exceeds the sealed exact-token limit; truncation is forbidden")
    let binding := cacheKey H P v.formatted
    raiseIf (binding.2 ≠ v.inputSha256) (runtimeError "derived view hash differs from its exact document input")
    raiseIf ((bound.find? (·.1 = binding.1)).any (·.2 ≠ binding.2))
      (runtimeError "v5 embedding cache key collision changed its exact input")
    bindViews (bound ++ [binding]) views

/-- What the cache has for a key: the digest of its vector. -/
def lookup (cache : Cache) (views : List View) (bindings : List (Str × Str)) (binding : Str × Str) :
    Except Raised (Option Str) := do
  match ← getEmbedding P cache binding.1 binding.2 false with
  | some row => pure (some (P.sha256 row.embedding))
  | none =>
    raiseIf (∃ v ∈ views.zip bindings, v.2.1 = binding.1 ∧ ¬ v.1.selected)
      ⟨.partialExecutionError, "issuer_scope_vector_missing"⟩
    pure none

/-- The cache after a call, what was sent to the provider, and the result. -/
structure Attempt (α : Type) where
  cache : Cache
  sent : List Str
  result : Except Raised α

/-- The vectors of a batch go to the cache one by one. -/
def storeBatch (cache : Cache) : List ((Str × Str) × V) → Cache × Except Raised (List (Str × Str))
  | [] => (cache, .ok [])
  | (binding, v) :: rest =>
    match putEmbedding P cache binding.1 binding.2 v with
    | (cache', .error e) => (cache', .error e)
    | (cache', .ok row) =>
      let stored := storeBatch cache' rest
      (stored.1, (fun digests => (binding.1, P.sha256 row.embedding) :: digests) <$> stored.2)

/-- The loop over the batches; `reply n` is what the capacity checks and the provider answer to the `n`-th. -/
def runBatches (reply : Nat → Except Raised (List V)) : Nat → Cache → List (List (Str × Str)) → Attempt (List (Str × Str))
  | _, cache, [] => ⟨cache, [], .ok []⟩
  | n, cache, batch :: rest =>
    match reply n with
    | .error e => ⟨cache, batch.map (·.1), .error e⟩
    | .ok generated =>
      if generated.length ≠ batch.length then
        ⟨cache, batch.map (·.1), .error (runtimeError "Qwen provider returned the wrong view batch count")⟩
      else
        match storeBatch P cache (batch.zip generated) with
        | (cache', .error e) => ⟨cache', batch.map (·.1), .error e⟩
        | (cache', .ok digests) =>
          let more := runBatches reply (n + 1) cache' rest
          ⟨more.cache, batch.map (·.1) ++ more.sent, (digests ++ ·) <$> more.result⟩

def maximumBatchSize : Nat := 64

/-- The first view of each cache key. -/
def representatives (bindings : List (Str × Str)) : List (Str × Str) :=
  bindings.foldl (fun firsts b => if firsts.any (·.1 = b.1) then firsts else firsts ++ [b]) []

/-- The end of an attempt: every view gets the digest of its key. -/
def sealBindings (bindings : List (Str × Str)) (digests : List (Str × Str)) : Except Raised (List (Str × Str × Str)) := do
  raiseIf (digests.length ≠ (representatives bindings).length)
    (runtimeError "v5 embedding cache rows were not all digest-sealed")
  bindings.mapM fun b => (PyList.get? digests b.1).elim (.error (runtimeError "KeyError")) fun d => .ok (b.1, b.2, d)

/-- What an attempt does before it asks the provider: the bindings, the digests of the hits, and the batches. -/
def prepare (cache : Cache) (views : List View) :
    Except Raised (List (Str × Str) × List (Str × Str) × List (List (Str × Str))) := do
  let bindings ← bindViews H P [] views
  let found ← (representatives bindings).mapM fun b => (b, ·) <$> lookup P cache views bindings b
  let hits := found.filterMap fun f => f.2.map (f.1.1, ·)
  let misses := (found.filter (·.2.isNone)).map fun f => bindings.idxOf f.1
  let batches ← embeddingMissBatches misses (views.map (P.tokenCounter ·.formatted)) P.maximumTokens maximumBatchSize
  pure (bindings, hits, batches.map (·.filterMap (bindings[·]?)))

/-- `embed_views`. -/
def embedViews (cache : Cache) (views : List View) (reply : Nat → Except Raised (List V)) :
    Attempt (List (Str × Str × Str)) :=
  match prepare H P cache views with
  | .error e => ⟨cache, [], .error e⟩
  | .ok (bindings, hits, batches) =>
    let stored := runBatches P reply 0 cache batches
    ⟨stored.cache, stored.sent, stored.result >>= fun digests => sealBindings bindings (hits ++ digests)⟩

/-! ### The export -/

/-- `load` without the memo. -/
def loadVector (cache : Cache) (identity : Str × Str × Str) : Except Raised (List UInt8) := do
  match ← getEmbedding P cache identity.1 identity.2.1 false with
  | none => .error (runtimeError "sealed v5 embedding cache row disappeared before export")
  | some row =>
    raiseIf (P.sha256 row.embedding ≠ identity.2.2)
      (runtimeError "sealed v5 embedding cache row changed bytes before export")
    pure row.embedding

/-- `BoundedVectorFetchMemo`. -/
structure Memo where
  entries : List ((Str × Str × Str) × List UInt8)
  maxEntries : Nat
  positive : 0 < maxEntries

def Memo.get (m : Memo) (identity : Str × Str × Str) : Option (List UInt8) := PyList.get? m.entries identity

/-- The first entries go until there is room. -/
def Memo.put (m : Memo) (identity : Str × Str × Str) (vector : List UInt8) : Memo :=
  { m with entries := PyList.insert identity vector (m.entries.drop (m.entries.length + 1 - m.maxEntries)) }

/-- `load`. -/
def loadThrough (cache : Cache) (m : Memo) (identity : Str × Str × Str) : Memo × Except Raised (List UInt8) :=
  match m.get identity with
  | some reused => (m, .ok reused)
  | none =>
    match loadVector P cache identity with
    | .error e => (m, .error e)
    | .ok embedding => (m.put identity embedding, .ok embedding)

/-- One load after the other. -/
def loadAll (cache : Cache) : Memo → List (Str × Str × Str) → Memo × List (Except Raised (List UInt8))
  | m, [] => (m, [])
  | m, identity :: rest =>
    let loaded := loadThrough P cache m identity
    let more := loadAll cache loaded.1 rest
    (more.1, loaded.2 :: more.2)

/-! ### What the cache has stays -/

/-- Every row of `c` is in `c'`. -/
def Extends (c c' : Cache) : Prop := ∀ key row, PyList.get? c key = some row → PyList.get? c' key = some row

theorem Extends.refl (c : Cache) : Extends c c := fun _ _ h => h

theorem Extends.trans {c₁ c₂ c₃ : Cache} (h : Extends c₁ c₂) (h' : Extends c₂ c₃) : Extends c₁ c₃ :=
  fun key row hrow => h' key row (h key row hrow)

/-- The cache has a vector for the binding, with the digest. -/
def Sealed (c : Cache) (b : Str × Str) (d : Str) : Prop :=
  ∃ row, PyList.get? c b.1 = some row ∧ checkRow P b.2 false row = .ok row ∧ P.sha256 row.embedding = d

section
variable {H} {P} {c c' : Cache} {b : Str × Str} {d : Str}

theorem Sealed.mono (h : Sealed P c b d) (hc : Extends c c') : Sealed P c' b d := by
  obtain ⟨row, hrow, hcheck, hd⟩ := h
  exact ⟨row, hc _ _ hrow, hcheck, hd⟩

theorem checkRow_relax {input : Str} {strict : Bool} {row row' : CacheRow} (h : checkRow P input strict row = .ok row') :
    row' = row ∧ checkRow P input false row = .ok row := by
  simp only [checkRow, bind_eq_ok, exists_unit, raiseIf_eq_ok, pure_eq_ok] at h ⊢
  exact ⟨h.2.2.2.symm, h.1, h.2.1, by simp⟩

theorem getEmbedding_sealed {key input : Str} {strict : Bool} {row : CacheRow}
    (h : getEmbedding P c key input strict = .ok (some row)) : Sealed P c (key, input) (P.sha256 row.embedding) := by
  unfold getEmbedding at h
  split at h
  · cases h
  · rename_i found hfound
    obtain ⟨row', hcheck, heq⟩ := map_eq_ok.1 h
    cases heq
    obtain ⟨rfl, hrelax⟩ := checkRow_relax hcheck
    exact ⟨_, hfound, hrelax, rfl⟩

theorem getEmbedding_none {key input : Str} {strict : Bool} (h : getEmbedding P c key input strict = .ok none) :
    PyList.get? c key = none := by
  unfold getEmbedding at h
  split at h
  · assumption
  · obtain ⟨row', -, heq⟩ := map_eq_ok.1 h
    cases heq

theorem putEmbedding_extends (key input : Str) (v : V) : Extends c (putEmbedding P c key input v).1 := by
  unfold putEmbedding
  split
  · exact .refl c
  · dsimp only
    split
    · exact .refl c
    · exact fun k row hrow => by rw [Recency.get?_append, hrow]; rfl

theorem putEmbedding_sealed {key input : Str} {v : V} {row : CacheRow} (h : (putEmbedding P c key input v).2 = .ok row) :
    Sealed P (putEmbedding P c key input v).1 (key, input) (P.sha256 row.embedding) := by
  unfold putEmbedding at h ⊢
  split at h
  · cases h
  · simp only [bind_eq_ok] at h
    obtain ⟨found, hget, h⟩ := h
    split at h
    · cases h
    · simp only [bind_eq_ok, exists_unit, raiseIf_eq_ok, pure_eq_ok] at h
      obtain ⟨-, rfl⟩ := h
      exact getEmbedding_sealed hget

theorem storeBatch_extends (batch : List ((Str × Str) × V)) : Extends c (storeBatch P c batch).1 := by
  induction batch generalizing c with
  | nil => exact .refl c
  | cons e rest ih =>
    have hput := putEmbedding_extends (P := P) (c := c) e.1.1 e.1.2 e.2
    unfold storeBatch
    split
    · rename_i cache' _ heq
      rw [heq] at hput
      exact hput
    · rename_i cache' row heq
      rw [heq] at hput
      exact hput.trans ih

theorem storeBatch_sealed {batch : List ((Str × Str) × V)} {digests : List (Str × Str)}
    (h : (storeBatch P c batch).2 = .ok digests) :
    ∀ e ∈ digests, ∃ b ∈ batch.map (·.1), b.1 = e.1 ∧ Sealed P (storeBatch P c batch).1 b e.2 := by
  induction batch generalizing c digests with
  | nil =>
    cases h
    exact fun e he => absurd he List.not_mem_nil
  | cons x rest ih =>
    unfold storeBatch at h ⊢
    split at h
    · cases h
    · rename_i cache' row heq
      obtain ⟨more, hmore, rfl⟩ := map_eq_ok.1 h
      intro e he
      obtain rfl | he := List.mem_cons.1 he
      · have hput : (putEmbedding P c x.1.1 x.1.2 x.2).2 = .ok row := by rw [heq]
        have hsealed := putEmbedding_sealed hput
        rw [heq] at hsealed
        exact ⟨x.1, List.mem_cons_self, rfl, hsealed.mono (storeBatch_extends rest)⟩
      · obtain ⟨b, hb, hkey, hsealed⟩ := ih hmore e he
        exact ⟨b, List.mem_cons_of_mem _ hb, hkey, hsealed⟩

variable {reply : Nat → Except Raised (List V)} {n : Nat} {batches : List (List (Str × Str))}

theorem runBatches_extends : Extends c (runBatches P reply n c batches).cache := by
  induction batches generalizing c n with
  | nil => exact .refl c
  | cons batch rest ih =>
    unfold runBatches
    split
    · exact .refl c
    · rename_i generated _
      split
      · exact .refl c
      · have hstore := storeBatch_extends (P := P) (c := c) (batch.zip generated)
        split
        · rename_i heq
          rw [heq] at hstore
          exact hstore
        · rename_i heq
          rw [heq] at hstore
          exact hstore.trans ih

theorem runBatches_sealed {digests : List (Str × Str)} (h : (runBatches P reply n c batches).result = .ok digests) :
    ∀ e ∈ digests, ∃ b ∈ batches.flatten, b.1 = e.1 ∧ Sealed P (runBatches P reply n c batches).cache b e.2 := by
  induction batches generalizing c n digests with
  | nil =>
    cases h
    exact fun e he => absurd he List.not_mem_nil
  | cons batch rest ih =>
    unfold runBatches at h ⊢
    split at h
    · cases h
    · rename_i generated _
      split at h
      · cases h
      · rename_i hlength
        rw [if_neg hlength]
        split at h
        · cases h
        · rename_i cache' first heq
          obtain ⟨more, hmore, rfl⟩ := map_eq_ok.1 h
          have hstored : (storeBatch P c (batch.zip generated)).2 = .ok first := by rw [heq]
          have hstore := storeBatch_sealed hstored
          rw [heq] at hstore
          intro e he
          obtain he | he := List.mem_append.1 he
          · obtain ⟨b, hb, hkey, hsealed⟩ := hstore e he
            obtain ⟨x, hx, rfl⟩ := List.mem_map.1 hb
            exact ⟨x.1, List.mem_append_left _ (List.of_mem_zip hx).1, hkey, hsealed.mono runBatches_extends⟩
          · obtain ⟨b, hb, hkey, hsealed⟩ := ih hmore e he
            exact ⟨b, List.mem_append_right _ hb, hkey, hsealed⟩

theorem embedViews_extends {views : List View} : Extends c (embedViews H P c views reply).cache := by
  unfold embedViews
  split
  · exact .refl c
  · exact runBatches_extends

/-! ### What an attempt seals -/

/-- Views of one key have one text digest. -/
structure Bound (bindings : List (Str × Str)) : Prop where
  agree : ∀ b ∈ bindings, ∀ b' ∈ bindings, b.1 = b'.1 → b = b'

theorem bindViews_ok {bound bindings : List (Str × Str)} {views : List View} (hbound : Bound bound)
    (h : bindViews H P bound views = .ok bindings) :
    bindings = bound ++ views.map (cacheKey H P ·.formatted) ∧ Bound bindings ∧ ∀ v ∈ views, H.hexdigest v.formatted = v.inputSha256 := by
  induction views generalizing bound with
  | nil =>
    cases h
    exact ⟨(List.append_nil _).symm, hbound, fun v hv => absurd hv List.not_mem_nil⟩
  | cons v views ih =>
    simp only [bindViews, bind_eq_ok, exists_unit, raiseIf_eq_ok] at h
    obtain ⟨-, hinput, hcollision, h⟩ := h
    have hnext : Bound (bound ++ [cacheKey H P v.formatted]) := by
      have hnew : ∀ b ∈ bound, b.1 = (cacheKey H P v.formatted).1 → b = cacheKey H P v.formatted := by
        intro b hb hkey
        obtain ⟨first, hfirst⟩ : ∃ first, bound.find? (·.1 = (cacheKey H P v.formatted).1) = some first :=
          Option.isSome_iff_exists.1 (List.find?_isSome.2 ⟨b, hb, by simpa using hkey⟩)
        have hfirstKey : first.1 = (cacheKey H P v.formatted).1 := by simpa using List.find?_some hfirst
        have hsame : first.2 = (cacheKey H P v.formatted).2 := by simpa [hfirst] using hcollision
        have heq := hbound.agree b hb first (List.mem_of_find?_eq_some hfirst) (hkey.trans hfirstKey.symm)
        rw [heq]
        exact Prod.ext hfirstKey hsame
      refine ⟨fun b hb b' hb' hkey => ?_⟩
      obtain hb | hb := List.mem_append.1 hb
      · obtain hb' | hb' := List.mem_append.1 hb'
        · exact hbound.agree b hb b' hb' hkey
        · rw [List.mem_singleton.1 hb'] at hkey ⊢
          exact hnew b hb hkey
      · obtain hb' | hb' := List.mem_append.1 hb'
        · rw [List.mem_singleton.1 hb] at hkey ⊢
          exact (hnew b' hb' hkey.symm).symm
        · rw [List.mem_singleton.1 hb, List.mem_singleton.1 hb']
    obtain ⟨rfl, hall, hdigests⟩ := ih hnext h
    refine ⟨by simp, hall, List.forall_mem_cons.2 ⟨?_, hdigests⟩⟩
    exact not_not.1 hinput

theorem representatives_concat (bindings : List (Str × Str)) (b : Str × Str) : representatives (bindings ++ [b]) =
    if (representatives bindings).any (·.1 = b.1) then representatives bindings else representatives bindings ++ [b] := by
  rw [representatives, List.foldl_append]
  rfl

theorem representatives_spec (bindings : List (Str × Str)) :
    representatives bindings ⊆ bindings ∧ ((representatives bindings).map (·.1)).Nodup := by
  induction bindings using List.reverseRecOn with
  | nil => exact ⟨List.Subset.refl _, List.nodup_nil⟩
  | append_singleton bindings b ih =>
    obtain ⟨hsub, hnodup⟩ := ih
    rw [representatives_concat]
    split
    · exact ⟨List.Subset.trans hsub (List.subset_append_left ..), hnodup⟩
    · rename_i hnew
      refine ⟨List.append_subset.2 ⟨List.Subset.trans hsub (List.subset_append_left ..), List.subset_append_right ..⟩, ?_⟩
      rw [List.map_append, List.nodup_append]
      refine ⟨hnodup, by simp, fun key hkey other hother heq => hnew ?_⟩
      obtain ⟨e, he, rfl⟩ := List.mem_map.1 hkey
      rw [List.any_eq_true]
      exact ⟨e, he, by simpa [heq] using hother⟩

/-- What the batches come to. -/
theorem filling_spec {counts : List Nat} {maximum size : Nat} (hsize : 0 < size) {misses : List Nat} {s s' : Filling}
    (h : misses.foldlM (Filling.add counts maximum size) s = .ok s')
    (hs : ∀ batch ∈ s.batches ++ [s.pending], batch.length ≤ size ∧ (batch.map (counts.getD · 0)).sum ≤ maximum)
    (htokens : s.pendingTokens = (s.pending.map (counts.getD · 0)).sum) :
    s'.batches.flatten ++ s'.pending = s.batches.flatten ++ s.pending ++ misses ∧
      (∀ batch ∈ s'.batches ++ [s'.pending], batch.length ≤ size ∧ (batch.map (counts.getD · 0)).sum ≤ maximum) := by
  induction misses generalizing s with
  | nil =>
    cases h
    exact ⟨by simp, hs⟩
  | cons index misses ih =>
    rw [List.foldlM_cons, bind_eq_ok] at h
    obtain ⟨s₁, hadd, h⟩ := h
    unfold Filling.add at hadd
    split at hadd
    · cases hadd
    · rename_i tokenCount hcount
      have hvalue : counts.getD index 0 = tokenCount := by rw [List.getD_eq_getElem?_getD, hcount]; rfl
      split at hadd
      · cases hadd
      · rename_i hcap
        have hle : tokenCount ≤ maximum := by omega
        split at hadd
        · cases hadd
          have hnext : ∀ batch ∈ (s.batches ++ [s.pending]) ++ [[index]],
              batch.length ≤ size ∧ (batch.map (counts.getD · 0)).sum ≤ maximum := by
            intro batch hb
            obtain hb | hb := List.mem_append.1 hb
            · exact hs batch hb
            · rw [List.mem_singleton.1 hb, List.map_singleton, List.sum_singleton, hvalue]
              exact ⟨hsize, hle⟩
          have htokens' : tokenCount = ([index].map (counts.getD · 0)).sum := by
            rw [List.map_singleton, List.sum_singleton, hvalue]
          obtain ⟨hflat, hbatches⟩ := ih h hnext htokens'
          exact ⟨by simpa using hflat, hbatches⟩
        · rename_i hroom
          cases hadd
          have hnext : ∀ batch ∈ s.batches ++ [s.pending ++ [index]],
              batch.length ≤ size ∧ (batch.map (counts.getD · 0)).sum ≤ maximum := by
            intro batch hb
            obtain hb | hb := List.mem_append.1 hb
            · exact hs batch (List.mem_append_left _ hb)
            · rw [List.mem_singleton.1 hb, List.map_append, List.sum_append, ← htokens, List.map_singleton,
                List.sum_singleton, hvalue, List.length_append, List.length_singleton]
              obtain hnil | hroom := not_and_or.1 hroom
              · have hzero : s.pendingTokens = 0 := by rw [htokens, not_not.1 hnil]; rfl
                rw [not_not.1 hnil, hzero, List.length_nil]
                exact ⟨hsize, by omega⟩
              · rw [not_or, not_le, not_lt] at hroom
                exact hroom
          have htokens' : s.pendingTokens + tokenCount = ((s.pending ++ [index]).map (counts.getD · 0)).sum := by
            rw [List.map_append, List.sum_append, List.map_singleton, List.sum_singleton, hvalue, htokens]
          obtain ⟨hflat, hbatches⟩ := ih h hnext htokens'
          exact ⟨by simpa using hflat, hbatches⟩

/-- The batches are the misses in order, and each is within both limits. -/
theorem embeddingMissBatches_spec {misses counts : List Nat} {maximum size : Nat} {batches : List (List Nat)}
    (h : embeddingMissBatches misses counts maximum size = .ok batches) : batches.flatten = misses ∧
      ∀ batch ∈ batches, batch.length ≤ size ∧ (batch.map (counts.getD · 0)).sum ≤ maximum := by
  simp only [embeddingMissBatches, bind_eq_ok, exists_unit, raiseIf_eq_ok, pure_eq_ok] at h
  obtain ⟨hlimits, s, hs, rfl⟩ := h
  obtain ⟨hflat, hbatches⟩ := filling_spec (by omega) hs (by simp) rfl
  split
  · rename_i hnil
    refine ⟨by simpa [hnil] using hflat, fun batch hb => hbatches batch (List.mem_append_left _ hb)⟩
  · exact ⟨by simpa using hflat, hbatches⟩

theorem mapM_tagged {α β : Type} {g : α → Except Raised β} {xs : List α} {found : List (α × β)}
    (h : xs.mapM (fun x => (x, ·) <$> g x) = .ok found) :
    found.map (·.1) = xs ∧ ∀ f ∈ found, g f.1 = .ok f.2 := by
  have hall := mapM_eq_ok.1 h
  clear h
  induction hall with
  | nil => exact ⟨rfl, fun f hf => absurd hf List.not_mem_nil⟩
  | cons hx _ ih =>
    obtain ⟨y, hy, rfl⟩ := map_eq_ok.1 hx
    exact ⟨congrArg _ ih.1, List.forall_mem_cons.2 ⟨hy, ih.2⟩⟩

theorem lookup_some {views : List View} {bindings : List (Str × Str)} (h : lookup P c views bindings b = .ok (some d)) :
    Sealed P c b d := by
  simp only [lookup, bind_eq_ok] at h
  obtain ⟨found, hget, h⟩ := h
  split at h
  · cases h
    exact getEmbedding_sealed hget
  · simp at h

theorem lookup_none {views : List View} {bindings : List (Str × Str)} (h : lookup P c views bindings b = .ok none) :
    PyList.get? c b.1 = none := by
  simp only [lookup, bind_eq_ok] at h
  obtain ⟨found, hget, h⟩ := h
  split at h
  · cases h
  · exact getEmbedding_none hget

/-- The hits are sealed already, and the batches hold the first view of every other key, once. -/
structure Prepared (c : Cache) (views : List View) (bindings hits : List (Str × Str)) (batches : List (List (Str × Str))) :
    Prop where
  keys : bindings = views.map (cacheKey H P ·.formatted)
  bound : Bound bindings
  hit : ∀ e ∈ hits, ∃ b ∈ bindings, b.1 = e.1 ∧ Sealed P c b e.2
  missing : ∀ b ∈ batches.flatten, b ∈ bindings ∧ PyList.get? c b.1 = none
  once : (batches.flatten.map (·.1)).Nodup

theorem prepare_ok {views : List View} {bindings hits : List (Str × Str)} {batches : List (List (Str × Str))}
    (h : prepare H P c views = .ok (bindings, hits, batches)) : Prepared (H := H) (P := P) c views bindings hits batches := by
  simp only [prepare, bind_eq_ok, pure_eq_ok, Prod.mk.injEq] at h
  obtain ⟨bindings', hbind, found, hfound, indices, hindices, rfl, rfl, rfl⟩ := h
  obtain ⟨hbindings, hbound, -⟩ := bindViews_ok ⟨fun b hb => absurd hb List.not_mem_nil⟩ hbind
  obtain ⟨hreps, hlookup⟩ := mapM_tagged hfound
  obtain ⟨hsub, hnodup⟩ := representatives_spec bindings'
  have hmem : ∀ f ∈ found, f.1 ∈ bindings' := fun f hf => hsub (hreps ▸ List.mem_map_of_mem hf)
  have hflat : (indices.map (·.filterMap (bindings'[·]?))).flatten = (found.filter (·.2.isNone)).map (·.1) := by
    rw [← List.filterMap_flatten, (embeddingMissBatches_spec hindices).1, List.filterMap_map, ← List.filterMap_eq_map]
    refine List.filterMap_congr fun f hf => ?_
    exact List.getElem?_idxOf (hmem f (List.mem_of_mem_filter hf))
  refine ⟨by simpa using hbindings, hbound, fun e he => ?_, fun b hb => ?_, ?_⟩
  · obtain ⟨f, hf, hsome⟩ := List.mem_filterMap.1 he
    obtain ⟨d, hd, rfl⟩ := Option.map_eq_some_iff.1 hsome
    exact ⟨f.1, hmem f hf, rfl, lookup_some (hd ▸ hlookup f hf)⟩
  · rw [hflat] at hb
    obtain ⟨f, hf, rfl⟩ := List.mem_map.1 hb
    obtain ⟨hf, hnone⟩ := List.mem_filter.1 hf
    exact ⟨hmem f hf, lookup_none (Option.isNone_iff_eq_none.1 hnone ▸ hlookup f hf)⟩
  · rw [hflat, List.map_map]
    refine List.Nodup.sublist ?_ hnodup
    rw [← hreps, List.map_map]
    exact List.filter_sublist.map _

/-- What is sent is the batches, as far as the loop comes. -/
theorem sent_prefix : (runBatches P reply n c batches).sent <+: batches.flatten.map (·.1) := by
  induction batches generalizing c n with
  | nil => exact List.nil_prefix
  | cons batch rest ih =>
    have hfirst : batch.map (·.1) <+: (batch :: rest).flatten.map (·.1) := by
      rw [List.flatten_cons, List.map_append]
      exact List.prefix_append ..
    unfold runBatches
    split
    · exact hfirst
    · split
      · exact hfirst
      · split
        · exact hfirst
        · rw [List.flatten_cons, List.map_append]
          exact (List.prefix_append_right_inj _).2 ih

theorem forall₂_map {α β : Type} {f : β → α} {Q : β → Prop} {xs : List α} {ys : List β}
    (h : List.Forall₂ (fun x y => f y = x ∧ Q y) xs ys) : ys.map f = xs ∧ ∀ y ∈ ys, Q y := by
  induction h with
  | nil => exact ⟨rfl, fun y hy => absurd hy List.not_mem_nil⟩
  | cons hx _ ih =>
    exact ⟨by rw [List.map_cons, hx.1, ih.1], List.forall_mem_cons.2 ⟨hx.2, ih.2⟩⟩

theorem embedViews_sealed {views : List View} {bound : List (Str × Str × Str)} (h : (embedViews H P c views reply).result = .ok bound) :
    bound.map (fun s => (s.1, s.2.1)) = views.map (cacheKey H P ·.formatted) ∧
      ∀ s ∈ bound, Sealed P (embedViews H P c views reply).cache (s.1, s.2.1) s.2.2 := by
  unfold embedViews at h ⊢
  split at h
  · cases h
  · rename_i bindings hits batches hprepare
    have hprep := prepare_ok hprepare
    obtain ⟨digests, hrun, hseal⟩ := bind_eq_ok.1 h
    simp only [sealBindings, bind_eq_ok, exists_unit] at hseal
    obtain ⟨-, hmap⟩ := hseal
    have hentries : ∀ e ∈ hits ++ digests, ∃ b ∈ bindings, b.1 = e.1 ∧
        Sealed P (runBatches P reply 0 c batches).cache b e.2 := by
      intro e he
      obtain he | he := List.mem_append.1 he
      · obtain ⟨b, hb, hkey, hsealed⟩ := hprep.hit e he
        exact ⟨b, hb, hkey, hsealed.mono runBatches_extends⟩
      · obtain ⟨b, hb, hkey, hsealed⟩ := runBatches_sealed hrun e he
        exact ⟨b, (hprep.missing b hb).1, hkey, hsealed⟩
    have hall : ∀ b ∈ bindings, ∀ s, (PyList.get? (hits ++ digests) b.1).elim (.error (runtimeError "KeyError"))
        (fun d => .ok (b.1, b.2, d)) = (.ok s : Except Raised _) → (s.1, s.2.1) = b ∧
          Sealed P (runBatches P reply 0 c batches).cache b s.2.2 := by
      intro b hb s hs
      cases hget : PyList.get? (hits ++ digests) b.1 with
      | none =>
        rw [hget] at hs
        cases hs
      | some d =>
        rw [hget] at hs
        cases hs
        obtain ⟨b', hb', hkey, hsealed⟩ := hentries _ (PyList.mem_of_get? hget)
        have heq := hprep.bound.agree b' hb' b hb hkey
        exact ⟨rfl, heq ▸ hsealed⟩
    rw [← hprep.keys]
    refine forall₂_map (((List.forall₂_and_left _ _).2 ⟨fun b hb => hb, mapM_eq_ok.1 hmap⟩).imp ?_)
    intro b s hs
    obtain ⟨heq, hsealed⟩ := hall b hs.1 s hs.2
    subst heq
    exact ⟨rfl, hsealed⟩

/-- A key that the cache has is not asked for again, and no key is asked for twice. -/
theorem embedViews_sent (views : List View) : (embedViews H P c views reply).sent.Nodup ∧
    ∀ key ∈ (embedViews H P c views reply).sent, PyList.get? c key = none := by
  unfold embedViews
  split
  · exact ⟨List.nodup_nil, fun key hkey => absurd hkey List.not_mem_nil⟩
  · rename_i bindings hits batches hprepare
    have hprep := prepare_ok hprepare
    have hsent : (runBatches P reply 0 c batches).sent <+: batches.flatten.map (·.1) := sent_prefix
    refine ⟨hsent.sublist.nodup hprep.once, fun key hkey => ?_⟩
    obtain ⟨b, hb, rfl⟩ := List.mem_map.1 (hsent.subset hkey)
    exact (hprep.missing b hb).2

end

/-- Attempts, of this generation or of others: the views of each, and what the provider answers. -/
abbrev Attempts (V : Type) := List (List View × (Nat → Except Raised (List V)))

def cacheAfter (cache : Cache) (attempts : Attempts V) : Cache :=
  runFrom (fun c a => (embedViews H P c a.1 a.2).cache) cache attempts

section
variable {H} {P} {c : Cache}

theorem extends_cacheAfter (attempts : Attempts V) : Extends c (cacheAfter H P c attempts) := by
  induction attempts generalizing c with
  | nil => exact .refl c
  | cons a attempts ih => exact embedViews_extends.trans ih

/-- A vector is paid for once: what was stored before an attempt, however many failed since, is not sent by it. -/
theorem stored_not_sent (earlier later : Attempts V) (views : List View) (reply : Nat → Except Raised (List V)) :
    let before := cacheAfter H P c earlier
    let attempt := embedViews H P (cacheAfter H P before later) views reply
    attempt.sent.Nodup ∧ ∀ key, (PyList.get? before key).isSome → key ∉ attempt.sent := by
  intro before attempt
  obtain ⟨hnodup, hmissing⟩ : attempt.sent.Nodup ∧ ∀ key ∈ attempt.sent, PyList.get? (cacheAfter H P before later) key = none :=
    embedViews_sent views
  refine ⟨hnodup, fun key hkey hsent => ?_⟩
  obtain ⟨row, hrow⟩ := Option.isSome_iff_exists.1 hkey
  have hkept := extends_cacheAfter (H := H) (P := P) later key row hrow
  rw [hmissing key hsent] at hkept
  cases hkept

/-! ### Reading it back -/

theorem Sealed.load {b : Str × Str} {d : Str} (h : Sealed P c b d) : ∃ blob, loadVector P c (b.1, b.2, d) = .ok blob ∧
    P.sha256 blob = d ∧ blob.length = P.dimension * 4 := by
  obtain ⟨row, hrow, hcheck, hd⟩ := h
  refine ⟨row.embedding, ?_, hd, ?_⟩
  · rw [loadVector, getEmbedding]
    simp only [hrow, hcheck]
    show (raiseIf _ _ >>= fun _ => pure row.embedding) = _
    rw [raiseIf, if_neg (not_not.2 hd)]
    rfl
  · simp only [checkRow, bind_eq_ok, exists_unit, raiseIf_eq_ok, not_or, not_not] at hcheck
    rw [hcheck.2.1, hcheck.1.2.2]

/-- What the memo has is what would be loaded. -/
def Memo.Faithful (P : Profile V) (c : Cache) (m : Memo) : Prop := ∀ e ∈ m.entries, loadVector P c e.1 = .ok e.2

theorem Memo.Faithful.through {m : Memo} (h : m.Faithful P c) (identity : Str × Str × Str) :
    (loadThrough P c m identity).1.Faithful P c ∧ (loadThrough P c m identity).2 = loadVector P c identity := by
  unfold loadThrough
  split
  · rename_i reused hget
    exact ⟨h, (h _ (PyList.mem_of_get? hget)).symm⟩
  · split
    · rename_i e hload
      exact ⟨h, hload.symm⟩
    · rename_i embedding hload
      refine ⟨fun e he => ?_, hload.symm⟩
      obtain rfl | he := PyList.mem_insert he
      · exact hload
      · exact h e (List.mem_of_mem_drop he)

theorem length_insert_le {κ α : Type} [DecidableEq κ] (k : κ) (v : α) (d : List (κ × α)) :
    (PyList.insert k v d).length ≤ d.length + 1 := by
  induction d with
  | nil => exact le_rfl
  | cons e d ih =>
    unfold PyList.insert
    split
    · exact Nat.le_succ _
    · exact Nat.succ_le_succ ih

theorem Memo.length_through {m : Memo} (h : m.entries.length ≤ m.maxEntries) (identity : Str × Str × Str) :
    (loadThrough P c m identity).1.maxEntries = m.maxEntries ∧
      (loadThrough P c m identity).1.entries.length ≤ m.maxEntries := by
  unfold loadThrough
  split
  · exact ⟨rfl, h⟩
  · split
    · exact ⟨rfl, h⟩
    · rename_i embedding _
      refine ⟨rfl, ?_⟩
      have hinsert : (PyList.insert identity embedding (m.entries.drop (m.entries.length + 1 - m.maxEntries))).length ≤
          (m.entries.drop (m.entries.length + 1 - m.maxEntries)).length + 1 := length_insert_le ..
      rw [List.length_drop] at hinsert
      have hpos := m.positive
      exact hinsert.trans (by omega)

/-- Through the memo every load gives what it gives without, and the memo keeps within its bound. -/
theorem memo_agrees (cache : Cache) (m : Memo) (hm : m.entries = []) (identities : List (Str × Str × Str)) :
    (loadAll P cache m identities).2 = identities.map (loadVector P cache) ∧
      (loadAll P cache m identities).1.entries.length ≤ m.maxEntries := by
  have hfaithful : m.Faithful P cache := fun e he => by rw [hm] at he; cases he
  have hlength : m.entries.length ≤ m.maxEntries := by rw [hm]; exact Nat.zero_le _
  clear hm
  induction identities generalizing m with
  | nil => exact ⟨rfl, hlength⟩
  | cons identity rest ih =>
    obtain ⟨hnext, hload⟩ := hfaithful.through identity
    obtain ⟨hmax, hbound⟩ := Memo.length_through (P := P) (c := cache) hlength identity
    obtain ⟨hrest, hend⟩ := ih (loadThrough P cache m identity).1 hnext (hmax ▸ hbound)
    refine ⟨?_, hmax ▸ hend⟩
    rw [loadAll, List.map_cons, ← hload]
    exact congrArg _ hrest

/-- What is read stays, whatever is stored later. -/
theorem loadVector_mono {c' : Cache} {s : Str × Str × Str} {blob : List UInt8} (hc : Extends c c')
    (h : loadVector P c s = .ok blob) : loadVector P c' s = .ok blob := by
  have hget : getEmbedding P c' s.1 s.2.1 false = getEmbedding P c s.1 s.2.1 false := by
    cases hrow : PyList.get? c s.1 with
    | none =>
      rw [loadVector, getEmbedding, hrow] at h
      cases h
    | some row => rw [getEmbedding, getEmbedding, hrow, hc _ _ hrow]
  rw [loadVector, hget]
  exact h

/-- After an attempt that succeeded, each view has one vector, of the digest that was sealed for it, and reads it
after any other attempts, in any order and as often as the export likes, through a memo of any size. -/
theorem sealed_vectors_load {views : List View} {reply : Nat → Except Raised (List V)} {bound : List (Str × Str × Str)}
    (h : (embedViews H P c views reply).result = .ok bound) :
    bound.map (fun s => (s.1, s.2.1)) = views.map (cacheKey H P ·.formatted) ∧
    ∃ vectorOf : Str × Str × Str → List UInt8,
      (∀ s ∈ bound, P.sha256 (vectorOf s) = s.2.2 ∧ (vectorOf s).length = P.dimension * 4) ∧
      ∀ (later : Attempts V) (m : Memo) (_ : m.entries = []) (identities : List (Str × Str × Str)), identities ⊆ bound →
        (loadAll P (cacheAfter H P (embedViews H P c views reply).cache later) m identities).2 =
          identities.map fun s => .ok (vectorOf s) := by
  obtain ⟨hkeys, hsealed⟩ := embedViews_sealed h
  have hread : ∀ s ∈ bound, ∃ blob, loadVector P (embedViews H P c views reply).cache s = .ok blob ∧
      P.sha256 blob = s.2.2 ∧ blob.length = P.dimension * 4 := fun s hs => (hsealed s hs).load
  choose! vectorOf hvector using hread
  refine ⟨hkeys, vectorOf, fun s hs => (hvector s hs).2, fun later m hm identities hsub => ?_⟩
  rw [(memo_agrees _ m hm identities).1]
  exact List.map_congr_left fun s hs => loadVector_mono (extends_cacheAfter later) (hvector s (hsub hs)).1

end

/-! Two views of one text and a third of another; later an attempt for a third text fails and the next succeeds. -/

/-- A digest that tells the three texts apart. -/
def plainHash : Sha256 where
  hexdigest text := List.replicate 64 (if '8' ∈ text then '8' else if '9' ∈ text then '9' else '0')
  isSha256_hexdigest text := by split <;> [decide; split <;> decide]

def plainProfile : Profile Nat where
  profileId := "p".toList
  cacheNamespace := "n".toList
  dimension := 1
  maximumTokens := 8
  tokenCounter text := text.length
  encode v := .ok [0, 0, 128, UInt8.ofNat v]
  valid _ := true
  sha256 blob := blob.map fun byte => Char.ofNat byte.toNat
  encode_valid v blob h := by
    cases h
    exact ⟨rfl, rfl⟩

def plainView (text : Str) : View := ⟨text, plainHash.hexdigest text, true⟩

def plainAttempt : Attempt (List (Str × Str × Str)) :=
  embedViews plainHash plainProfile [] [plainView "x".toList, plainView "x".toList, plainView "8".toList] fun _ => .ok [63, 64]

def plainLater : Attempts Nat :=
  [([plainView "9".toList], fun _ => .error (runtimeError "provider is down")),
    ([plainView "x".toList, plainView "9".toList], fun _ => .ok [65])]

/-- What is sealed for a text with the vector `v`. -/
def plainSeal (text : Str) (v : Nat) : Str × Str × Str :=
  (plainHash.hexdigest text, plainHash.hexdigest text, [0, 0, 128, UInt8.ofNat v].map fun byte => Char.ofNat byte.toNat)

theorem plainAttempt_result :
    plainAttempt.result = .ok [plainSeal "x".toList 63, plainSeal "x".toList 63, plainSeal "8".toList 64] := by
  rfl

/-- Reads that miss, hit and evict, before and after the later attempts. -/
theorem sealed_vectors_load_plain : ∃ vectorOf : Str × Str × Str → List UInt8, ∀ later ∈ [[], plainLater],
    (loadAll plainProfile (cacheAfter plainHash plainProfile plainAttempt.cache later) ⟨[], 1, Nat.one_pos⟩
      [plainSeal "x".toList 63, plainSeal "x".toList 63, plainSeal "8".toList 64, plainSeal "x".toList 63]).2 =
      [.ok (vectorOf (plainSeal "x".toList 63)), .ok (vectorOf (plainSeal "x".toList 63)),
        .ok (vectorOf (plainSeal "8".toList 64)), .ok (vectorOf (plainSeal "x".toList 63))] := by
  obtain ⟨-, vectorOf, -, hload⟩ := sealed_vectors_load plainAttempt_result
  exact ⟨vectorOf, fun later _ => hload later _ rfl _ (by simp)⟩

/-- A memo of one entry, over a cache with rows: the second read is from the memo, the third evicts. -/
theorem memo_agrees_plain :
    let identities := [plainSeal "x".toList 63, plainSeal "x".toList 63, plainSeal "8".toList 64, plainSeal "x".toList 64]
    let loaded := loadAll plainProfile plainAttempt.cache ⟨[], 1, Nat.one_pos⟩ identities
    loaded.2 = identities.map (loadVector plainProfile plainAttempt.cache) ∧ loaded.1.entries.length ≤ 1 ∧
      identities.map (loadVector plainProfile plainAttempt.cache) = [.ok [0, 0, 128, 63], .ok [0, 0, 128, 63],
        .ok [0, 0, 128, 64], .error (runtimeError "sealed v5 embedding cache row changed bytes before export")] := by
  obtain ⟨hsame, hbound⟩ := memo_agrees (P := plainProfile) plainAttempt.cache ⟨[], 1, Nat.one_pos⟩ rfl
    [plainSeal "x".toList 63, plainSeal "x".toList 63, plainSeal "8".toList 64, plainSeal "x".toList 64]
  exact ⟨hsame, hbound, rfl⟩

end CardRag.Embedding
