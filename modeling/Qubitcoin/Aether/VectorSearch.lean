import Qubitcoin.Aether.VectorIndex

/-! What a search of the vector index answers, after any calls. -/

universe u v

namespace Qubitcoin.Aether.Vector

variable {F : Type u} {D : Type v} [LinearOrder D]

/-- The vectors that callers have stored, by the ids of their nodes. -/
abbrev Stored (F : Type u) := ColumnFamily I64 (List F)

/-- What a search for `topK` vectors is to answer: stored nodes, each once and with the distance of
its vector, the nearest first, and as many as there are up to `topK`. -/
structure Answers (metric : Metric F D) (efSearch : ℕ) (stored : Stored F) (query : List F)
    (topK : ℕ) (results : List (VectorResult D)) : Prop where
  nodup : (results.map VectorResult.nodeId).Nodup
  current : ∀ r ∈ results, ∃ vector, stored.lookup r.nodeId = some vector ∧
    r.distance = metric.cosineDistance query vector
  ascending : results.Pairwise fun a b => a.distance ≤ b.distance
  enough : topK ≤ efSearch → results.length = min topK stored.keys.length

section Refinement

variable (metric : Metric F D)

/-- The vector at a position is not marked as removed. -/
def Shown (self : ShardVectorIndex F) (pos : ℕ) : Prop :=
  pos < self.vectors.length ∧ metric.removed (vectorAt self.vectors pos) = false

instance (self : ShardVectorIndex F) (pos : ℕ) : Decidable (Shown metric self pos) :=
  inferInstanceAs (Decidable (_ ∧ _))

/-- The index has the stored vectors at the positions of their ids, and at the others what is
marked as removed. -/
structure Refines (index : ShardVectorIndex F) (stored : Stored F) : Prop where
  length : index.posToId.length = index.vectors.length
  lookup : ∀ nodeId pos, index.idToPos.lookup nodeId = some pos →
    index.posToId[pos]? = some nodeId ∧ stored.lookup nodeId = some (vectorAt index.vectors pos)
  mem : ∀ nodeId, nodeId ∈ index.idToPos ↔ nodeId ∈ stored
  shown : ∀ pos, Shown metric index pos → ∃ nodeId, index.idToPos.lookup nodeId = some pos
  entry : ∀ entry, index.entryPoint = some entry → entry < index.vectors.length

variable {metric} {order : HeapOrder (D × ℕ)} {self : ShardVectorIndex F} {stored : Stored F}

theorem vectorAt_set (vectors : List (List F)) (p q : ℕ) (vector : List F) :
    vectorAt (vectors.set p vector) q =
      if p = q ∧ q < vectors.length then vector else vectorAt vectors q := by
  rw [vectorAt, vectorAt, List.getD_eq_getElem?_getD, List.getD_eq_getElem?_getD,
    List.getElem?_set]
  by_cases hpq : p = q
  · subst hpq
    by_cases hp : p < vectors.length
    · simp [hp]
    · simp [hp]
  · simp [hpq]

theorem vectorAt_append_of_lt {vectors : List (List F)} {q : ℕ} (h : q < vectors.length)
    (vector : List F) : vectorAt (vectors ++ [vector]) q = vectorAt vectors q := by
  rw [vectorAt, vectorAt, List.getD_append _ _ _ _ h]

theorem vectorAt_append_length (vectors : List (List F)) (vector : List F) :
    vectorAt (vectors ++ [vector]) vectors.length = vector := by
  simp [vectorAt]

omit [LinearOrder D] in
theorem Refines.pos_lt (h : Refines metric self stored) {nodeId : I64} {pos : ℕ}
    (hlookup : self.idToPos.lookup nodeId = some pos) : pos < self.vectors.length := by
  rw [← h.length]
  exact (List.getElem?_eq_some_iff.mp (h.lookup nodeId pos hlookup).1).1

omit [LinearOrder D] in
theorem Refines.pos_inj (h : Refines metric self stored) {nodeId nodeId' : I64} {pos : ℕ}
    (hlookup : self.idToPos.lookup nodeId = some pos)
    (hlookup' : self.idToPos.lookup nodeId' = some pos) : nodeId = nodeId' := by
  have hid := (h.lookup nodeId pos hlookup).1
  rw [(h.lookup nodeId' pos hlookup').1] at hid
  exact (Option.some.inj hid).symm

theorem hnswInsert_same (draw pos : ℕ) (embedding : List F) :
    (self.hnswInsert metric order draw pos embedding).config = self.config ∧
      (self.hnswInsert metric order draw pos embedding).idToPos = self.idToPos ∧
      (self.hnswInsert metric order draw pos embedding).posToId = self.posToId ∧
      (self.hnswInsert metric order draw pos embedding).vectors = self.vectors ∧
      ∀ entry, (self.hnswInsert metric order draw pos embedding).entryPoint = some entry →
        entry = pos ∨ self.entryPoint = some entry := by
  unfold ShardVectorIndex.hnswInsert
  cases hentry : self.entryPoint with
  | none =>
    refine ⟨rfl, rfl, rfl, rfl, fun entry h => Or.inl ?_⟩
    exact (Option.some.inj h).symm
  | some entry =>
    refine ⟨rfl, rfl, rfl, rfl, fun entry' h => ?_⟩
    dsimp only at h
    split at h
    · exact Or.inl (Option.some.inj h).symm
    · exact Or.inr h

theorem Refines.hnswInsert (h : Refines metric self stored) {pos : ℕ}
    (hpos : pos < self.vectors.length) (draw : ℕ) (embedding : List F) :
    Refines metric (self.hnswInsert metric order draw pos embedding) stored := by
  obtain ⟨-, hids, hposToId, hvectors, hentry⟩ :=
    @hnswInsert_same _ _ _ metric order self draw pos embedding
  constructor
  · rw [hposToId, hvectors]
    exact h.length
  · rw [hids, hposToId, hvectors]
    exact h.lookup
  · rw [hids]
    exact h.mem
  · rw [hids]
    simp only [Shown, hvectors]
    exact h.shown
  · rw [hvectors]
    intro entry hsome
    rcases hentry entry hsome with rfl | hold
    · exact hpos
    · exact h.entry entry hold

/-- What a caller has stored after an upsert: vectors of another dimension are skipped. -/
def Stored.upsert (stored : Stored F) (dim : ℕ) (nodeId : I64) (embedding : List F) : Stored F :=
  if embedding.length ≠ dim then stored else stored.insert nodeId embedding

omit [LinearOrder D] in
theorem removed_replicate_nan (dim : ℕ) (h : 0 < dim) :
    metric.removed (List.replicate dim metric.nan) = true := by
  obtain ⟨n, rfl⟩ := Nat.exists_eq_succ_of_ne_zero h.ne'
  simp [Metric.removed, List.replicate_succ, metric.isNan_nan]

omit [LinearOrder D] in
/-- A vector in the place of another one of the same node. -/
theorem Refines.replace (h : Refines metric self stored) {nodeId : I64} {pos : ℕ}
    (hlookup : self.idToPos.lookup nodeId = some pos) (embedding : List F) :
    Refines metric { self with vectors := self.vectors.set pos embedding }
      (stored.insert nodeId embedding) where
  length := by rw [List.length_set]; exact h.length
  lookup id p hp := by
    refine ⟨(h.lookup id p hp).1, ?_⟩
    rw [ColumnFamily.lookup_insert_eq, vectorAt_set]
    by_cases hid : id = nodeId
    · subst hid
      rw [hlookup] at hp
      cases hp
      simp [h.pos_lt hlookup]
    · have hne : pos ≠ p := by
        rintro rfl
        exact hid (h.pos_inj hp hlookup)
      simp [hid, hne, (h.lookup id p hp).2]
  mem id := by
    rw [AList.mem_insert, ← h.mem id]
    constructor
    · exact Or.inr
    · rintro (rfl | hmem)
      · exact ColumnFamily.mem_iff_exists.mpr ⟨pos, hlookup⟩
      · exact hmem
  shown p hp := by
    obtain ⟨hlt, hshown⟩ := hp
    dsimp only at hlt hshown
    rw [List.length_set] at hlt
    rw [vectorAt_set] at hshown
    by_cases hpos : pos = p
    · subst hpos
      exact ⟨nodeId, hlookup⟩
    · rw [if_neg fun hand => hpos hand.1] at hshown
      exact h.shown p ⟨hlt, hshown⟩
  entry e he := by rw [List.length_set]; exact h.entry e he

omit [LinearOrder D] in
/-- A vector for a new node, at the end. -/
theorem Refines.append (h : Refines metric self stored) {nodeId : I64}
    (hnew : self.idToPos.lookup nodeId = none) (embedding : List F) :
    Refines metric
      { self with
        idToPos := self.idToPos.insert nodeId self.posToId.length
        posToId := self.posToId ++ [nodeId]
        vectors := self.vectors ++ [embedding] }
      (stored.insert nodeId embedding) where
  length := by simp [h.length]
  lookup id p hp := by
    rw [ColumnFamily.lookup_insert_eq] at hp
    rw [ColumnFamily.lookup_insert_eq]
    split at hp
    · next hid =>
      cases hp
      rw [if_pos hid, h.length, vectorAt_append_length, hid, ← h.length]
      exact ⟨List.getElem?_concat_length, rfl⟩
    · next hid =>
      have hlt := h.pos_lt hp
      rw [if_neg hid, vectorAt_append_of_lt hlt]
      refine ⟨?_, (h.lookup id p hp).2⟩
      rw [List.getElem?_append_left (h.length ▸ hlt)]
      exact (h.lookup id p hp).1
  mem id := by
    rw [AList.mem_insert, AList.mem_insert, h.mem id]
  shown p hp := by
    obtain ⟨hlt, hshown⟩ := hp
    dsimp only at hlt hshown
    rw [List.length_append, List.length_singleton] at hlt
    rcases Nat.lt_succ_iff_lt_or_eq.mp hlt with hold | rfl
    · rw [vectorAt_append_of_lt hold] at hshown
      obtain ⟨id, hid⟩ := h.shown p ⟨hold, hshown⟩
      refine ⟨id, ?_⟩
      rw [ColumnFamily.lookup_insert_eq, if_neg, hid]
      rintro rfl
      rw [hnew] at hid
      cases hid
    · exact ⟨nodeId, by rw [ColumnFamily.lookup_insert_eq, if_pos rfl, h.length]⟩
  entry e he := (h.entry e he).trans (by simp)

theorem Refines.upsert (h : Refines metric self stored) (draw : ℕ) (nodeId : I64)
    (embedding : List F) :
    Refines metric (self.upsert metric order draw nodeId embedding)
      (stored.upsert self.config.dim nodeId embedding) := by
  unfold ShardVectorIndex.upsert Stored.upsert
  by_cases hdim : embedding.length = self.config.dim
  · simp only [hdim, ne_eq, not_true_eq_false, if_false]
    cases hlookup : self.idToPos.lookup nodeId with
    | some pos => exact h.replace hlookup embedding
    | none =>
      have happend := h.append hlookup embedding
      dsimp only
      split
      · apply happend.hnswInsert
        simp [h.length]
      · exact happend
  · simp only [hdim, ne_eq, not_false_eq_true, if_true]
    exact h

omit [LinearOrder D] in
theorem Refines.remove (h : Refines metric self stored) (nodeId : I64) :
    Refines metric (self.remove metric nodeId) (stored.erase nodeId) := by
  have hmem (id : I64) (hne : id ≠ nodeId) : id ∈ self.idToPos ↔ id ∈ stored.erase nodeId := by
    rw [AList.mem_erase, h.mem]
    simp [hne]
  unfold ShardVectorIndex.remove
  cases hlookup : self.idToPos.lookup nodeId with
  | none =>
    have hne (id : I64) (hid : id ∈ self.idToPos) : id ≠ nodeId := by
      rintro rfl
      rw [ColumnFamily.mem_iff_exists, hlookup] at hid
      simp at hid
    refine { h with lookup := fun id p hp => ?_, mem := fun id => ?_ }
    · rw [ColumnFamily.lookup_erase_eq, if_neg (hne id (ColumnFamily.mem_iff_exists.mpr ⟨p, hp⟩))]
      exact h.lookup id p hp
    · by_cases hid : id = nodeId
      · subst hid
        exact iff_of_false (fun hin => hne id hin rfl) (by simp [AList.mem_erase])
      · exact hmem id hid
  | some pos =>
    constructor
    · simp [h.length]
    · intro id p hp
      rw [ColumnFamily.lookup_erase_eq] at hp
      split at hp
      · cases hp
      · next hne =>
        have hpos : pos ≠ p := by
          rintro rfl
          exact hne (h.pos_inj hp hlookup)
        rw [ColumnFamily.lookup_erase_eq, if_neg hne, vectorAt_set, if_neg fun hand => hpos hand.1]
        exact h.lookup id p hp
    · intro id
      by_cases hid : id = nodeId
      · simp [hid, AList.mem_erase]
      · rw [AList.mem_erase, ← hmem id hid]
        simp [hid]
    · rintro p ⟨hlt, hshown⟩
      dsimp only at hlt hshown
      rw [List.length_set] at hlt
      rw [vectorAt_set] at hshown
      by_cases hpos : pos = p
      · rw [if_pos ⟨hpos, hlt⟩, removed_replicate_nan _ self.config.dim_pos] at hshown
        cases hshown
      · rw [if_neg fun hand => hpos hand.1] at hshown
        obtain ⟨id, hid⟩ := h.shown p ⟨hlt, hshown⟩
        refine ⟨id, ?_⟩
        rw [ColumnFamily.lookup_erase_eq, if_neg, hid]
        rintro rfl
        rw [hlookup] at hid
        exact hpos (Option.some.inj hid)
    · intro e he
      rw [List.length_set]
      exact h.entry e he

theorem Refines.foldl_hnswInsert (h : Refines metric self stored) (draws : ℕ → ℕ)
    {embeddings : List (List F × ℕ)} (hpos : ∀ e ∈ embeddings, e.2 < self.vectors.length) :
    Refines metric (embeddings.foldl
      (fun index e => index.hnswInsert metric order (draws e.2) e.2 e.1) self) stored := by
  induction embeddings generalizing self with
  | nil => exact h
  | cons e embeddings ih =>
    rw [List.foldl_cons]
    obtain ⟨-, -, -, hvectors, -⟩ :=
      @hnswInsert_same _ _ _ metric order self (draws e.2) e.2 e.1
    apply ih (h.hnswInsert (hpos e List.mem_cons_self) _ _)
    rw [hvectors]
    exact fun e' he' => hpos e' (List.mem_cons_of_mem _ he')

theorem Refines.rebuildHnsw (h : Refines metric self stored) (draws : ℕ → ℕ) :
    Refines metric (self.rebuildHnsw metric order draws) stored := by
  unfold ShardVectorIndex.rebuildHnsw
  split
  · exact h
  · have hcleared : Refines metric
        { self with hnswLayers := [], entryPoint := none, maxLevel := 0 } stored :=
      ⟨h.length, h.lookup, h.mem, h.shown, nofun⟩
    apply hcleared.foldl_hnswInsert
    intro e he
    have hindex := List.snd_lt_of_mem_zipIdx he
    exact hindex.trans_le (List.length_filter_le _ _)

end Refinement

section Runs

variable (metric : Metric F D) (order : HeapOrder (D × ℕ))

inductive Call (F : Type u)
  | upsert (draw : ℕ) (nodeId : I64) (embedding : List F)
  | remove (nodeId : I64)
  | rebuildHnsw (draws : ℕ → ℕ)

def step (self : ShardVectorIndex F) : Call F → ShardVectorIndex F
  | .upsert draw nodeId embedding => self.upsert metric order draw nodeId embedding
  | .remove nodeId => self.remove metric nodeId
  | .rebuildHnsw draws => self.rebuildHnsw metric order draws

/-- A new index after the calls. -/
def after (config : VectorIndexConfig) (calls : List (Call F)) : ShardVectorIndex F :=
  Machine.run (step metric order) { config := config } calls

/-- What callers have stored after the calls. -/
def storedAfter (dim : ℕ) (calls : List (Call F)) : Stored F :=
  Machine.run (fun stored call =>
    match call with
    | .upsert _ nodeId embedding => stored.upsert dim nodeId embedding
    | .remove nodeId => stored.erase nodeId
    | .rebuildHnsw _ => stored) ∅ calls

variable {metric order} {self : ShardVectorIndex F}

theorem config_foldl_hnswInsert (draws : ℕ → ℕ) (embeddings : List (List F × ℕ)) :
    (embeddings.foldl (fun index e => index.hnswInsert metric order (draws e.2) e.2 e.1)
      self).config = self.config := by
  induction embeddings generalizing self with
  | nil => rfl
  | cons e embeddings ih => rw [List.foldl_cons, ih, (hnswInsert_same _ _ _).1]

theorem config_step (call : Call F) : (step metric order self call).config = self.config := by
  cases call with
  | upsert draw nodeId embedding =>
    simp only [step, ShardVectorIndex.upsert]
    split
    · rfl
    · split
      · rfl
      · split
        · rw [(hnswInsert_same _ _ _).1]
        · rfl
  | remove nodeId =>
    simp only [step, ShardVectorIndex.remove]
    split
    · rfl
    · rfl
  | rebuildHnsw draws =>
    simp only [step, ShardVectorIndex.rebuildHnsw]
    split
    · rfl
    · rw [config_foldl_hnswInsert]

theorem refines_after (config : VectorIndexConfig) (calls : List (Call F)) :
    Refines metric (after metric order config calls) (storedAfter config.dim calls) ∧
      (after metric order config calls).config = config := by
  induction calls using List.reverseRecOn with
  | nil => exact ⟨⟨rfl, by simp [after], by simp [after, storedAfter], by simp [after, Shown],
      by simp [after]⟩, rfl⟩
  | append_singleton calls call ih =>
    obtain ⟨hrefines, hconfig⟩ := ih
    rw [after, storedAfter, Machine.run_append, Machine.run_append, ← after, ← storedAfter]
    refine ⟨?_, (config_step call).trans hconfig⟩
    cases call with
    | upsert draw nodeId embedding =>
      have hupsert := @Refines.upsert _ _ _ metric order _ _ hrefines draw nodeId embedding
      rw [hconfig] at hupsert
      exact hupsert
    | remove nodeId => exact hrefines.remove nodeId
    | rebuildHnsw draws => exact hrefines.rebuildHnsw draws

end Runs

section Positions

variable {metric : Metric F D} {order : HeapOrder (D × ℕ)} {self : ShardVectorIndex F}
  {stored : Stored F} {query : List F} {topK : ℕ} {rs : List (D × ℕ)}

theorem pairwise_insertionSort_key {α : Type u} (key : α → D) (l : List α) :
    (l.insertionSort fun a b => key a ≤ key b).Pairwise fun a b => key a ≤ key b := by
  have : Std.Total fun a b => key a ≤ key b := ⟨fun a b => le_total (key a) (key b)⟩
  have : IsTrans α fun a b => key a ≤ key b := ⟨fun _ _ _ => le_trans⟩
  exact List.pairwise_insertionSort _ l

/-- Pairs of shown positions, each once and with its distance. -/
structure Hits (metric : Metric F D) (index : ShardVectorIndex F) (query : List F)
    (rs : List (D × ℕ)) : Prop where
  nodup : (rs.map Prod.snd).Nodup
  shown : ∀ e ∈ rs, Shown metric index e.2
  distance : ∀ e ∈ rs, e.1 = distanceAt metric index.vectors query e.2

omit [LinearOrder D] in
theorem Refines.exists_id (h : Refines metric self stored) {pos : ℕ}
    (hshown : Shown metric self pos) (default : I64) :
    self.idToPos.lookup (self.posToId.getD pos default) = some pos ∧
      stored.lookup (self.posToId.getD pos default) = some (vectorAt self.vectors pos) := by
  obtain ⟨id, hid⟩ := h.shown pos hshown
  obtain ⟨hpos, hstored⟩ := h.lookup id pos hid
  rw [List.getD_eq_getElem?_getD, hpos, Option.getD_some]
  exact ⟨hid, hstored⟩

omit [LinearOrder D] in
theorem Hits.nodup_ids (hits : Hits metric self query rs) (h : Refines metric self stored)
    (default : I64) : (rs.map fun e => self.posToId.getD e.2 default).Nodup := by
  apply List.Nodup.map_on _ hits.nodup.of_map
  intro e he e' he' hids
  have hpos := (h.exists_id (hits.shown e he) default).1
  rw [hids, (h.exists_id (hits.shown e' he') default).1] at hpos
  exact List.inj_on_of_nodup_map hits.nodup he he' (Option.some.inj hpos).symm

omit [LinearOrder D] in
theorem Hits.length_le (hits : Hits metric self query rs) (h : Refines metric self stored) :
    rs.length ≤ stored.keys.length := by
  have hnodup := hits.nodup_ids h 0
  have hsub : (rs.map fun e => self.posToId.getD e.2 0) ⊆ stored.keys := by
    intro id hid
    obtain ⟨e, he, rfl⟩ := List.mem_map.mp hid
    rw [← AList.mem_keys, ColumnFamily.mem_iff_exists]
    exact ⟨_, (h.exists_id (hits.shown e he) 0).2⟩
  have hle := (hnodup.subperm hsub).length_le
  rwa [List.length_map] at hle

/-- What the search gives out for the pairs, without its order. -/
theorem Hits.answers_iff (hits : Hits metric self query rs) (h : Refines metric self stored)
    {efSearch : ℕ} {default : I64} {results : List (VectorResult D)}
    (hresults : results.Perm (rs.map fun e =>
      { nodeId := self.posToId.getD e.2 default, distance := e.1 }))
    (hascending : results.Pairwise fun a b => a.distance ≤ b.distance) :
    Answers metric efSearch stored query topK results ↔
      (topK ≤ efSearch → rs.length = min topK stored.keys.length) := by
  have hlength : results.length = rs.length := by rw [hresults.length_eq, List.length_map]
  constructor
  · intro hanswers hef
    rw [← hlength]
    exact hanswers.enough hef
  · intro henough
    refine ⟨?_, fun r hr => ?_, hascending, fun hef => hlength.trans (henough hef)⟩
    · rw [(hresults.map VectorResult.nodeId).nodup_iff, List.map_map]
      exact hits.nodup_ids h default
    · obtain ⟨e, he, rfl⟩ := List.mem_map.mp (hresults.mem_iff.mp hr)
      exact ⟨_, (h.exists_id (hits.shown e he) default).2, hits.distance e he⟩

/-- There are as many positions of a kind as the search is to find. -/
def Plenty (field : ℕ → Prop) (topK count : ℕ) : Prop :=
  ∃ ps : List ℕ, ps.Nodup ∧ ps.length = min topK count ∧ ∀ pos ∈ ps, field pos

omit [LinearOrder D] in
/-- Hits of a field, as many as wanted or else all of it. -/
theorem Hits.length_eq_iff (hits : Hits metric self query rs) (h : Refines metric self stored)
    {field : ℕ → Prop} (hfield : ∀ e ∈ rs, field e.2) (hle : rs.length ≤ topK)
    (hall : rs.length < topK → ∀ pos, field pos → pos ∈ rs.map Prod.snd) :
    rs.length = min topK stored.keys.length ↔ Plenty field topK stored.keys.length := by
  have hstored := hits.length_le h
  constructor
  · intro hlength
    refine ⟨rs.map Prod.snd, hits.nodup, by rw [List.length_map, hlength], fun pos hpos => ?_⟩
    obtain ⟨e, he, rfl⟩ := List.mem_map.mp hpos
    exact hfield e he
  · rintro ⟨ps, hnodup, hlength, hps⟩
    rcases hle.lt_or_eq with hlt | heq
    · have hsub : ps ⊆ rs.map Prod.snd := fun pos hpos => hall hlt pos (hps pos hpos)
      have hge := (hnodup.subperm hsub).length_le
      rw [List.length_map, hlength] at hge
      exact le_antisymm (le_min hle hstored) hge
    · rw [heq, min_eq_left (heq ▸ hstored)]

end Positions

section Flat

variable {metric : Metric F D} {order : HeapOrder (D × ℕ)} {self : ShardVectorIndex F}
  {stored : Stored F} {query : List F} {topK : ℕ}

theorem offer_spec {heap : List (D × ℕ)} {e : D × ℕ} (hnodup : (heap.map Prod.snd).Nodup)
    (hnew : e.2 ∉ heap.map Prod.snd) (hle : heap.length ≤ topK) :
    (∀ x ∈ ShardVectorIndex.offer topK heap e, x = e ∨ x ∈ heap) ∧
      ((ShardVectorIndex.offer topK heap e).map Prod.snd).Nodup ∧
      (ShardVectorIndex.offer topK heap e).length = min topK (heap.length + 1) := by
  have hpush (l : List (D × ℕ)) (hl : l.Sublist heap) :
      (∀ x ∈ BestFirst.pushMax e l, x = e ∨ x ∈ heap) ∧
        ((BestFirst.pushMax e l).map Prod.snd).Nodup ∧
        (BestFirst.pushMax e l).length = l.length + 1 := by
    have hperm := BestFirst.perm_pushMax e l
    refine ⟨fun x hx => (BestFirst.mem_pushMax.mp hx).imp id (fun hin => hl.subset hin), ?_,
      hperm.length_eq⟩
    rw [(hperm.map Prod.snd).nodup_iff, List.map_cons, List.nodup_cons]
    exact ⟨fun hin => hnew ((hl.map Prod.snd).subset hin), (hl.map Prod.snd).nodup hnodup⟩
  unfold ShardVectorIndex.offer
  split
  · next hroom =>
    obtain ⟨hmem, hnodup', hlength⟩ := hpush heap (List.Sublist.refl _)
    exact ⟨hmem, hnodup', by rw [hlength, min_eq_right hroom]⟩
  · next hfull =>
    have heq : topK = heap.length := le_antisymm (not_lt.mp hfull) hle
    cases heap with
    | nil => exact ⟨fun x hx => Or.inr hx, hnodup, by simp [heq]⟩
    | cons worst heap =>
      dsimp only
      split
      · obtain ⟨hmem, hnodup', hlength⟩ := hpush heap (List.sublist_cons_self _ _)
        exact ⟨hmem, hnodup', by rw [hlength, heq, List.length_cons]; simp⟩
      · exact ⟨fun x hx => Or.inr hx, hnodup, by rw [heq]; simp⟩

/-- The heap of the flat search over some positions: hits among those, as many as wanted or as there
are. -/
theorem foldl_offer {ps : List ℕ} (hps : ps.Nodup) {heap : List (D × ℕ)}
    (hits : Hits metric self query heap) (hnew : ∀ e ∈ heap, e.2 ∉ ps) (hle : heap.length ≤ topK) :
    let last := ps.foldl (fun heap pos =>
      if self.vectors.length ≤ pos then heap
      else if metric.removed (vectorAt self.vectors pos) then heap
      else ShardVectorIndex.offer topK heap (distanceAt metric self.vectors query pos, pos)) heap
    Hits metric self query last ∧
      last.length = min topK (heap.length + (ps.filter (Shown metric self ·)).length) := by
  induction ps generalizing heap with
  | nil => exact ⟨hits, by simp [hle]⟩
  | cons pos ps ih =>
    rw [List.nodup_cons] at hps
    have hrest (e : D × ℕ) (he : e ∈ heap) : e.2 ∉ ps :=
      fun hin => hnew e he (List.mem_cons_of_mem _ hin)
    rw [List.foldl_cons]
    by_cases hshown : Shown metric self pos
    · have hpos : pos ∉ heap.map Prod.snd := by
        intro hin
        obtain ⟨e, he, heq⟩ := List.mem_map.mp hin
        exact hnew e he (heq ▸ List.mem_cons_self)
      obtain ⟨hmem, hnodup, hlength⟩ :=
        @offer_spec _ _ topK heap (distanceAt metric self.vectors query pos, pos) hits.nodup hpos hle
      have hits' : Hits metric self query (ShardVectorIndex.offer topK heap
          (distanceAt metric self.vectors query pos, pos)) := by
        refine ⟨hnodup, fun e he => ?_, fun e he => ?_⟩
        · rcases hmem e he with rfl | hold
          · exact hshown
          · exact hits.shown e hold
        · rcases hmem e he with rfl | hold
          · rfl
          · exact hits.distance e hold
      rw [if_neg (not_le.mpr hshown.1), if_neg (by simp [hshown.2])]
      obtain ⟨hlast, hcount⟩ := ih hps.2 hits' (fun e he => by
        rcases hmem e he with rfl | hold
        · exact hps.1
        · exact hrest e hold) (by rw [hlength]; exact min_le_left _ _)
      refine ⟨hlast, ?_⟩
      rw [hcount, hlength, List.filter_cons_of_pos (by simp [hshown]), List.length_cons]
      omega
    · rw [List.filter_cons_of_neg (by simp [hshown])]
      have hskip : (if self.vectors.length ≤ pos then heap
          else if metric.removed (vectorAt self.vectors pos) then heap
          else ShardVectorIndex.offer topK heap (distanceAt metric self.vectors query pos, pos)) =
            heap := by
        split
        · rfl
        · next hlt =>
          rw [Shown, not_and, Bool.not_eq_false] at hshown
          rw [if_pos (hshown (not_le.mp hlt))]
      rw [hskip]
      exact ih hps.2 hits hrest hle

theorem hits_flatHeap (h : Refines metric self stored) :
    Hits metric self query (self.flatHeap metric query topK) ∧
      (self.flatHeap metric query topK).length ≤ topK ∧
      ((self.flatHeap metric query topK).length < topK →
        ∀ pos, Shown metric self pos → pos ∈ (self.flatHeap metric query topK).map Prod.snd) := by
  obtain ⟨hits, hlength⟩ := @foldl_offer _ _ _ metric self query topK _
    (List.nodup_range (n := self.posToId.length)) [] ⟨List.nodup_nil, nofun, nofun⟩ nofun
    (Nat.zero_le _)
  change Hits metric self query (self.flatHeap metric query topK) at hits
  change (self.flatHeap metric query topK).length = _ at hlength
  rw [List.length_nil, Nat.zero_add] at hlength
  refine ⟨hits, hlength ▸ min_le_left _ _, fun hlt pos hpos => ?_⟩
  have hsub : (self.flatHeap metric query topK).map Prod.snd ⊆
      (List.range self.posToId.length).filter (Shown metric self ·) := by
    intro p hp
    obtain ⟨e, he, rfl⟩ := List.mem_map.mp hp
    have hshown := hits.shown e he
    rw [List.mem_filter, List.mem_range, h.length]
    exact ⟨hshown.1, by simp [hshown]⟩
  have hperm := (hits.nodup.subperm hsub).perm_of_length_le (by
    rw [List.length_map]
    omega)
  rw [hperm.mem_iff, List.mem_filter, List.mem_range, h.length]
  exact ⟨hpos.1, by simp [hpos]⟩

theorem flatSearch_answers_iff (h : Refines metric self stored) (efSearch : ℕ) :
    Answers metric efSearch stored query topK (self.flatSearch metric order query topK) ↔
      (topK ≤ efSearch → Plenty (Shown metric self) topK stored.keys.length) := by
  obtain ⟨hits, hle, hall⟩ := @hits_flatHeap _ _ _ metric self stored query topK h
  rw [← hits.length_eq_iff h (fun e he => hits.shown e he) hle hall]
  apply hits.answers_iff h
  · exact (List.perm_insertionSort _ _).trans ((order.perm _).map _)
  · exact pairwise_insertionSort_key VectorResult.distance _

end Flat

section Layered

variable {metric : Metric F D} {order : HeapOrder (D × ℕ)} {self : ShardVectorIndex F}
  {stored : Stored F} {query : List F} {topK : ℕ}

/-- The descent of a search meets no removed vector but the one that it starts at. -/
theorem Shown.walk {current : ℕ} (h : Shown metric self current) (layer : Layer) :
    Shown metric self (walk metric self.vectors query true layer current) := by
  apply GreedyDescent.descend_induction (P := Shown metric self) _ h
  intro n c _ hcloser
  simp only [closer, decide_eq_true_eq, true_and, Bool.not_eq_true] at hcloser
  exact ⟨hcloser.1, hcloser.2.2.1⟩

/-- The walk comes to its end: at a position with no neighbor that is nearer to the query. -/
theorem distanceAt_walk_le (skipRemoved : Bool) (layer : Layer) (current : ℕ) {neighbor : ℕ}
    (hneighbor : neighbor ∈
      neighborsAt layer (walk metric self.vectors query skipRemoved layer current))
    (hlt : neighbor < self.vectors.length)
    (hcurrent : walk metric self.vectors query skipRemoved layer current < self.vectors.length)
    (hshown : skipRemoved = true → Shown metric self neighbor) :
    distanceAt metric self.vectors query
        (walk metric self.vectors query skipRemoved layer current) ≤
      distanceAt metric self.vectors query neighbor := by
  -- a move leaves fewer positions that are nearer
  let nearer (pos : ℕ) : Finset ℕ := (Finset.range self.vectors.length).filter fun p =>
    distanceAt metric self.vectors query p < distanceAt metric self.vectors query pos
  have hfuel (pos : ℕ) : (nearer pos).card < self.vectors.length + 1 :=
    Nat.lt_succ_of_le ((Finset.card_filter_le _ _).trans_eq (Finset.card_range _))
  have hmove (n c : ℕ) (hn : n < self.vectors.length)
      (hnc : distanceAt metric self.vectors query n < distanceAt metric self.vectors query c) :
      (nearer n).card < (nearer c).card := by
    apply Finset.card_lt_card
    apply Finset.ssubset_iff_of_subset (fun p hp => ?_) |>.mpr
    · exact ⟨n, by simp [nearer, hn, hnc], by simp [nearer]⟩
    · rw [Finset.mem_filter] at hp ⊢
      exact ⟨hp.1, hp.2.trans hnc⟩
  have hrest : closer metric self.vectors query skipRemoved neighbor
      (walk metric self.vectors query skipRemoved layer current) = false := by
    apply GreedyDescent.closer_of_step_eq_none _ hneighbor
    refine @GreedyDescent.step_descend ℕ _ _ (fun pos => (nearer pos).card) ?_ _ _ (hfuel current)
    intro n c hcloser
    have hnear := of_decide_eq_true hcloser
    exact hmove n c hnear.1 hnear.2.2.2
  apply not_lt.mp
  intro hnear
  apply of_decide_eq_false hrest
  exact ⟨hlt, hcurrent, fun hremoved => by simp [(hshown hremoved.1).2] at hremoved, hnear⟩

theorem Shown.greedyDescent {entry : ℕ} (h : Shown metric self entry) (layers : List Layer)
    (top bottom : ℕ) :
    Shown metric self (greedyDescent metric self.vectors query true layers top bottom entry) := by
  unfold Vector.greedyDescent
  generalize (List.range' bottom (top + 1 - bottom)).reverse = ls
  induction ls generalizing entry with
  | nil => exact h
  | cons l ls ih =>
    rw [List.foldl_cons]
    apply ih
    split
    · exact h
    · exact h.walk _

omit [LinearOrder D] in
theorem live_layerGraph (layer : Layer) (pos : ℕ) :
    (layerGraph metric self.vectors query layer).live pos = true ↔ Shown metric self pos :=
  decide_eq_true_iff

omit [LinearOrder D] in
theorem Shown.leads {entry pos : ℕ} (h : Shown metric self entry) {layer : Layer}
    (hleads : BestFirst.Leads (layerGraph metric self.vectors query layer) entry pos) :
    Shown metric self pos := by
  rcases Relation.ReflTransGen.cases_tail hleads with rfl | ⟨_, _, -, hlast⟩
  · exact h
  · exact (live_layerGraph layer pos).mp hlast

/-- The search of a layer from a shown position: hits among what the position leads to, and all of
that unless there are `ef`. -/
theorem hits_searchLayer {entry : ℕ} (h : Shown metric self entry) (ef : ℕ) (layer : Layer) :
    let g := layerGraph metric self.vectors query layer
    let rs := searchLayer metric order self.vectors query entry ef layer
    Hits metric self query rs ∧ (∀ e ∈ rs, BestFirst.Leads g entry e.2) ∧
      (rs.Pairwise fun a b => a.1 ≤ b.1) ∧ 0 < rs.length ∧
      (rs.length < ef → ∀ pos, BestFirst.Leads g entry pos → pos ∈ rs.map Prod.snd) := by
  intro g rs
  have hrs : rs = (order.intoIter (BestFirst.search g ef (self.vectors.length + 2)
      entry).results).insertionSort fun a b => a.1 ≤ b.1 := if_pos h.1
  obtain ⟨x, hsearch⟩ := BestFirst.searching_search g ef (self.vectors.length + 2) entry
  have hdone := @BestFirst.step_search _ _ _ _ g ef (Finset.range self.vectors.length)
    (fun pos hpos => Finset.mem_range.mpr ((live_layerGraph layer pos).mp hpos).1)
    (self.vectors.length + 2) (by simp) entry
  generalize BestFirst.search g ef (self.vectors.length + 2) entry = found at hrs hsearch hdone
  have hperm : rs.Perm found.results :=
    hrs ▸ (List.perm_insertionSort _ _).trans (order.perm _)
  have hreached (e : D × ℕ) (he : e ∈ rs) : BestFirst.Leads g entry e.2 :=
    hsearch.leads e (List.mem_append_right _ (hperm.mem_iff.mp he))
  refine ⟨⟨?_, fun e he => h.leads (hreached e he), fun e he => ?_⟩, hreached, ?_, ?_,
    fun hroom pos hpos => ?_⟩
  · rw [(hperm.map Prod.snd).nodup_iff]
    exact hsearch.nodup
  · exact hsearch.dist e (hperm.mem_iff.mp he)
  · rw [hrs]
    exact pairwise_insertionSort_key Prod.fst _
  · rw [hperm.length_eq]
    exact hsearch.pos
  · rw [(hperm.map Prod.snd).mem_iff]
    exact hsearch.complete hdone (hperm.length_eq ▸ hroom) hpos

omit [LinearOrder D] in
theorem Hits.take {rs : List (D × ℕ)} (hits : Hits metric self query rs) (n : ℕ) :
    Hits metric self query (rs.take n) where
  nodup := by
    rw [List.map_take]
    exact (List.take_sublist _ _).nodup hits.nodup
  shown e he := hits.shown e (List.mem_of_mem_take he)
  distance e he := hits.distance e (List.mem_of_mem_take he)

/-- The positions that a search with a vector of the right dimension looks at: all that are shown,
or where the graph leads to on its lowest layer from the end of the descent. -/
def Explored (metric : Metric F D) (self : ShardVectorIndex F) (query : List F) (pos : ℕ) : Prop :=
  query.length = self.config.dim ∧
    match self.entryPoint with
    | none => Shown metric self pos
    | some entry =>
      if self.posToId.length < self.config.hnswThreshold then Shown metric self pos
      else
        BestFirst.Leads (layerGraph metric self.vectors query (layerAt self.hnswLayers 0))
          (greedyDescent metric self.vectors query true self.hnswLayers self.maxLevel 1 entry) pos

/-- Where the graph is used, its entry point is not removed and it leads to no negative ids. -/
def Sound (metric : Metric F D) (self : ShardVectorIndex F) (query : List F) : Prop :=
  self.config.hnswThreshold ≤ self.posToId.length → ∀ entry, self.entryPoint = some entry →
    metric.removed (vectorAt self.vectors entry) = false ∧
      ∀ pos, Explored metric self query pos → 0 ≤ (self.posToId.getD pos (-1)).toInt

theorem flatSearch_zero (h : Refines metric self stored) :
    self.flatSearch metric order query 0 = [] := by
  obtain ⟨-, hle, -⟩ := @hits_flatHeap _ _ _ metric self stored query 0 h
  rw [← List.length_eq_zero_iff, ShardVectorIndex.flatSearch, List.length_insertionSort,
    List.length_map, (order.perm _).length_eq]
  exact Nat.le_zero.mp hle

theorem plenty_zero (field : ℕ → Prop) (count : ℕ) : Plenty field 0 count :=
  ⟨[], List.nodup_nil, by simp, nofun⟩

/-- The search of the graph, where it starts at a shown position and meets no negative ids. -/
theorem hnswSearch_answers_iff (h : Refines metric self stored) {entry : ℕ}
    (hentry : self.entryPoint = some entry) (hshown : Shown metric self entry)
    (hquery : query.length = self.config.dim)
    (hids : ∀ pos, Explored metric self query pos → 0 ≤ (self.posToId.getD pos (-1)).toInt)
    (hthreshold : self.config.hnswThreshold ≤ self.posToId.length) :
    (Answers metric self.config.efSearch stored query topK
        (self.hnswSearch metric order query topK) ↔
      (topK ≤ self.config.efSearch →
        Plenty (Explored metric self query) topK stored.keys.length)) ∧
      (self.hnswSearch metric order query topK = [] → topK = 0) := by
  have hexplored (pos : ℕ) : Explored metric self query pos ↔
      BestFirst.Leads (layerGraph metric self.vectors query (layerAt self.hnswLayers 0))
        (greedyDescent metric self.vectors query true self.hnswLayers self.maxLevel 1 entry) pos := by
    simp only [Explored, hquery, true_and, hentry, if_neg (not_lt.mpr hthreshold)]
  obtain ⟨hits, hleads, hascending, hpos, hall⟩ :=
    @hits_searchLayer _ _ _ metric order self query _
      (@Shown.greedyDescent _ _ _ metric self query _ hshown self.hnswLayers self.maxLevel 1)
      self.config.efSearch (layerAt self.hnswLayers 0)
  simp only [← hexplored] at hleads hall
  have hsearch : self.hnswSearch metric order query topK =
      ((searchLayer metric order self.vectors query
        (greedyDescent metric self.vectors query true self.hnswLayers self.maxLevel 1 entry)
        self.config.efSearch (layerAt self.hnswLayers 0)).take topK).map fun e =>
          { nodeId := self.posToId.getD e.2 (-1), distance := e.1 } := by
    simp only [ShardVectorIndex.hnswSearch, hentry]
    rw [List.filter_eq_self]
    intro r hr
    obtain ⟨e, he, rfl⟩ := List.mem_map.mp hr
    exact decide_eq_true (hids e.2 (hleads e (List.mem_of_mem_take he)))
  rw [hsearch]
  generalize searchLayer metric order self.vectors query
    (greedyDescent metric self.vectors query true self.hnswLayers self.maxLevel 1 entry)
    self.config.efSearch (layerAt self.hnswLayers 0) = rs at hits hleads hascending hpos hall
  constructor
  · rw [(hits.take topK).answers_iff h (List.Perm.refl _)
      (List.pairwise_map.mpr (hascending.sublist (List.take_sublist _ _)))]
    apply forall_congr'
    intro hef
    apply (hits.take topK).length_eq_iff h
      (fun e he => hleads e (List.mem_of_mem_take he)) (List.length_take_le _ _)
    intro hlt pos hexplored
    have hall' : rs.length < topK := by
      rw [List.length_take] at hlt
      omega
    rw [List.take_of_length_le hall'.le]
    exact hall (hall'.trans_le hef) pos hexplored
  · intro hnil
    rw [List.map_eq_nil_iff, List.take_eq_nil_iff] at hnil
    exact hnil.resolve_right (List.ne_nil_of_length_pos hpos)

/-- Where no vectors are stored or the query has another dimension, nothing is found. -/
theorem nil_answers_iff (h : Refines metric self stored) (efSearch : ℕ) {field : ℕ → Prop}
    (hfield : ∀ pos, ¬field pos) :
    Answers metric efSearch stored query topK ([] : List (VectorResult D)) ↔
      (topK ≤ efSearch → Plenty field topK stored.keys.length) := by
  have hits : Hits metric self query ([] : List (D × ℕ)) := ⟨List.nodup_nil, nofun, nofun⟩
  rw [← hits.length_eq_iff h nofun (Nat.zero_le _) fun _ pos hpos => absurd hpos (hfield pos)]
  exact @Hits.answers_iff _ _ _ metric self stored query topK [] hits h efSearch 0 []
    (List.Perm.refl _) List.Pairwise.nil

/-- A search answers in full exactly if the positions that it looks at are enough. -/
theorem search_answers_of_refines (h : Refines metric self stored)
    (hsound : Sound metric self query) :
    Answers metric self.config.efSearch stored query topK (self.search metric order query topK) ↔
      (topK ≤ self.config.efSearch →
        Plenty (Explored metric self query) topK stored.keys.length) := by
  unfold ShardVectorIndex.search
  by_cases hquery : query.length = self.config.dim
  swap
  · rw [if_pos (Or.inl hquery)]
    exact nil_answers_iff h _ fun pos hpos => hquery hpos.1
  have hflat (hshown : ∀ pos, Explored metric self query pos ↔ Shown metric self pos) :
      Answers metric self.config.efSearch stored query topK
          (self.flatSearch metric order query topK) ↔
        (topK ≤ self.config.efSearch →
          Plenty (Explored metric self query) topK stored.keys.length) := by
    rw [flatSearch_answers_iff h, Plenty, Plenty]
    simp only [hshown]
  by_cases hempty : self.posToId = []
  · rw [if_pos (Or.inr hempty)]
    have hvectors : self.vectors.length = 0 := by rw [← h.length, hempty, List.length_nil]
    have hshown (pos : ℕ) : ¬Shown metric self pos := fun hpos => by
      have hlt := hpos.1
      omega
    apply nil_answers_iff h
    intro pos hpos
    cases hentry : self.entryPoint with
    | none => exact hshown pos (by simpa [Explored, hquery, hentry] using hpos)
    | some entry =>
      have hlt := h.entry entry hentry
      omega
  · rw [if_neg (by simp [hquery, hempty])]
    by_cases hcount : self.posToId.length < self.config.hnswThreshold
    · rw [if_pos hcount]
      apply hflat
      intro pos
      unfold Explored
      split
      · simp [hquery]
      · simp [hquery, hcount]
    · rw [if_neg hcount]
      cases hentry : self.entryPoint with
      | none =>
        have hnil : self.hnswSearch metric order query topK = [] := by
          rw [ShardVectorIndex.hnswSearch, hentry]
        simp only [hnil, if_true]
        apply hflat
        intro pos
        simp [Explored, hquery, hentry]
      | some entry =>
        obtain ⟨hremoved, hids⟩ := hsound (not_lt.mp hcount) entry hentry
        obtain ⟨hiff, hzero⟩ := @hnswSearch_answers_iff _ _ _ metric order self stored query topK h
          entry hentry ⟨h.entry entry hentry, hremoved⟩ hquery hids (not_lt.mp hcount)
        dsimp only
        split
        · next hnil =>
          -- an empty answer was asked for
          have hfallback : self.flatSearch metric order query topK = [] := by
            rw [hzero hnil]
            exact flatSearch_zero h
          rw [hfallback]
          rwa [hnil] at hiff
        · exact hiff

end Layered

section Searches

variable (metric : Metric F D) (order : HeapOrder (D × ℕ))

/-- Numbers with `none` for NaN, and the distances of vectors of length 1, where that of a removed
vector is NaN, the greatest. -/
def unitVectors : Metric (Option ℚ) (WithTop ℚ) where
  isNan := Option.isNone
  nan := none
  isNan_nan := rfl
  cosineDistance a b :=
    match (List.zipWith (Option.map₂ (· * ·)) a b).foldr (Option.map₂ (· + ·)) (some 0) with
    | none => ⊤
    | some dot => (1 - dot : ℚ)
  maxDistance := ((2 ^ 24 - 1) * 2 ^ 104 : ℚ)

def heapOrder : HeapOrder (WithTop ℚ × ℕ) where
  intoIter := id
  perm _ := List.Perm.refl _

def planeConfig (hnswThreshold : ℕ) : VectorIndexConfig :=
  { VectorIndexConfig.default with dim := 2, dim_pos := by decide, hnswThreshold := hnswThreshold }

def east : List (Option ℚ) := [some 1, some 0]

def north : List (Option ℚ) := [some 0, some 1]

end Searches

end Qubitcoin.Aether.Vector
