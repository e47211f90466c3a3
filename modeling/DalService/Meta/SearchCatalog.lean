import DalService.Meta.Run

/-!
# The life of search generations

A generation of a search index is built, becomes the active one once every voter of every partition
has reported it ready, and retires. Its id is the index of the entry that built it, so with
increasing indices no id is given twice, to any index (`CatalogInvariant`). `index_cases` says what
a step does to the catalog: it leaves it alone, or changes one index in one of five ways
(`IndexChange`), and on every way that ends the building generation its readiness reports go too.
`search_catalog_lifecycle` is the result for runs of a replica.
-/

set_option autoImplicit false

namespace DalService.Meta

open Foundation Keyspace DalService.Search MetaStateMachine
open Function (update update_of_ne update_self)

/-! ### The generations of an index -/

/-- The ids of the generations of an index: active, building and retiring. -/
def generationIds (record : SearchIndexRecord) : List SearchIndexGenerationId :=
  record.active.toList.map (·.id) ++ (record.building.toList.map (·.id) ++ record.retiring)

variable {record : SearchIndexRecord} {retiring : List SearchIndexGenerationId}

theorem mem_retire {generation : SearchIndexGeneration} {id : SearchIndexGenerationId} :
    id ∈ retire retiring generation ↔ id ∈ retiring ∨ id = generation.id := by
  unfold retire
  split_ifs with hthere
  · rw [List.contains_iff_mem] at hthere
    exact ⟨.inl, fun h ↦ h.elim (fun hold ↦ hold) fun heq ↦ heq ▸ hthere⟩
  · simp

theorem nodup_retire (h : retiring.Nodup)
    (generation : SearchIndexGeneration) : (retire retiring generation).Nodup := by
  unfold retire
  split_ifs with hthere
  · exact h
  · rw [List.contains_iff_mem] at hthere
    exact List.nodup_append.mpr ⟨h, List.nodup_singleton _, by
      rintro id hid _ hsame rfl
      exact hthere (List.mem_singleton.mp hsame ▸ hid)⟩

theorem mem_foldl_retire {generations : List SearchIndexGeneration} {id : SearchIndexGenerationId} :
    id ∈ generations.foldl retire retiring ↔ id ∈ retiring ∨ id ∈ generations.map (·.id) := by
  induction generations generalizing retiring with
  | nil => simp
  | cons generation generations ih =>
    rw [List.foldl_cons, ih, mem_retire, List.map_cons, List.mem_cons, or_assoc]

theorem nodup_foldl_retire {generations : List SearchIndexGeneration} (h : retiring.Nodup) :
    (generations.foldl retire retiring).Nodup := by
  induction generations generalizing retiring with
  | nil => exact h
  | cons generation generations ih => exact ih (nodup_retire h generation)

/-- Activation keeps the generations of an index. -/
theorem mem_generationIds_activated {building : SearchIndexGeneration}
    (hbuilding : record.building = some building) {id : SearchIndexGenerationId} :
    id ∈ generationIds (activated record building) ↔ id ∈ generationIds record := by
  simp only [generationIds, activated, hbuilding, Option.toList_some, Option.toList_none,
    List.map_cons, List.map_nil, List.mem_append, List.mem_cons, List.not_mem_nil,
    or_false, false_or,
    mem_foldl_retire]
  tauto

theorem nodup_generationIds_activated {building : SearchIndexGeneration}
    (hbuilding : record.building = some building) (h : (generationIds record).Nodup) :
    (generationIds (activated record building)).Nodup := by
  simp only [generationIds, hbuilding, Option.toList_some, List.map_cons, List.map_nil,
    List.singleton_append] at h
  obtain ⟨-, hrest, hdisjoint⟩ := List.nodup_append.mp h
  obtain ⟨hnot, hretiring⟩ := List.nodup_cons.mp hrest
  refine List.nodup_cons.mpr ⟨fun hmem ↦ ?_, nodup_foldl_retire hretiring⟩
  rcases mem_foldl_retire.mp hmem with hold | hactive
  · exact hnot hold
  · exact hdisjoint _ hactive _ List.mem_cons_self rfl

/-- Dropping an index keeps its generations, as retiring ones. -/
theorem mem_generationIds_dropped {id : SearchIndexGenerationId} :
    id ∈ generationIds (dropped record) ↔ id ∈ generationIds record := by
  simp only [generationIds, dropped, Option.toList_none, List.map_nil, List.nil_append,
    mem_foldl_retire, List.map_append, List.mem_append]
  tauto

theorem nodup_generationIds_dropped (h : (generationIds record).Nodup) :
    (generationIds (dropped record)).Nodup := by
  have hretiring : record.retiring.Nodup :=
    h.sublist ((List.sublist_append_right _ _).trans (List.sublist_append_right _ _))
  exact nodup_foldl_retire hretiring

/-! ### What a step does to the catalog -/

/-- The changes of one index. -/
inductive IndexChange (v : MetaView) (entry : Entry) (name : String) :
    Option SearchIndexRecord → Option SearchIndexRecord → Prop
  | create (generation : SearchIndexGeneration) (hid : generation.id = entry.1.index)
    (hroom : v.indexNames.ncard < SEARCH_MAX_INDEXES) :
    IndexChange v entry name none (some { freshIndex name with building := some generation })
  | rebuild (record : SearchIndexRecord) (generation : SearchIndexGeneration)
    (hid : generation.id = entry.1.index) (hbuilding : record.building = none) :
    IndexChange v entry name (some record) (some { record with building := some generation })
  | activate (record : SearchIndexRecord) (building : SearchIndexGeneration)
    (config : ClusterConfig) (hcmd : entry.2 = .activateSearchIndexGeneration name building.id)
    (hbuilding : record.building = some building) (hcluster : v.cluster = some config)
    (hready : ∀ partition < config.p.toNat, ∃ placed,
      v.placement (.data (UInt16.ofNat partition)) = some placed ∧ placed.move = none ∧
        ∀ nodeId ∈ placed.voters,
          ReadyAt v name building (.data (UInt16.ofNat partition)) placed nodeId) :
    IndexChange v entry name (some record) (some (activated record building))
  | drop (record : SearchIndexRecord) :
    IndexChange v entry name (some record) (some (dropped record))
  | collect (record : SearchIndexRecord) (generation : SearchIndexGenerationId) :
    IndexChange v entry name (some record)
      (if record.active = none ∧ record.building = none ∧
          record.retiring.filter (· ≠ generation) = [] then none
        else some { record with retiring := record.retiring.filter (· ≠ generation) })

/-- An index builds a generation. -/
def Builds (index : Option SearchIndexRecord) (generation : SearchIndexGenerationId) : Prop :=
  ∃ record building, index = some record ∧ record.building = some building ∧
    building.id = generation

variable {prims : Primitives} {identity : Option Identity} {v next : MetaView} {entry : Entry}

/-- A step leaves the catalog alone and adds at most a readiness report of a building generation, or
it changes one index and drops the reports of a generation that the index built and builds no
more. -/
theorem index_cases (hstep : Step prims identity v entry next) :
    (next.searchIndex = v.searchIndex ∧ ∀ name generation group nodeId,
      next.ready name generation group nodeId ≠ none →
        v.ready name generation group nodeId ≠ none ∨ Builds (v.searchIndex name) generation) ∨
    ∃ name index, IndexChange v entry name (v.searchIndex name) index ∧
      next.searchIndex = update v.searchIndex name index ∧
      ∀ other generation group nodeId, next.ready other generation group nodeId ≠ none →
        v.ready other generation group nodeId ≠ none ∧
          (other = name → Builds (v.searchIndex name) generation → Builds index generation) := by
  rcases hstep with rfl | heffect
  · exact .inl ⟨rfl, fun _ _ _ _ h ↦ .inl h⟩
  obtain ⟨logId, cmd⟩ := entry
  cases heffect with
  | directory _ _ h => cases h <;> exact .inl ⟨rfl, fun _ _ _ _ h ↦ .inl h⟩
  | placement _ _ _ h | maintenance _ h => exact .inl ⟨rfl, fun _ _ _ _ h ↦ .inl h⟩
  | search _ _ h =>
    cases h with
    | build _ name definition engineRevision isUpdate generation record _ _ _ hgeneration hrecord
        hbuilding =>
      have hid : generation.id = logId.index := id_of_withRevision hgeneration
      have hnone : ∀ id, ¬Builds (some record) id := by
        rintro id ⟨found, building, hfound, hbuilds, -⟩
        obtain rfl := Option.some.inj hfound
        rw [hbuilding] at hbuilds
        cases hbuilds
      rcases hrecord with ⟨-, hnew, hroom, rfl⟩ | ⟨-, hold, -, -⟩
      · refine .inr ⟨name, _, hnew ▸ .create generation hid hroom, rfl,
          fun _ _ _ _ h ↦ ⟨h, fun _ hbuilds ↦ ?_⟩⟩
        obtain ⟨found, -, hfound, -⟩ := hbuilds
        rw [hnew] at hfound
        cases hfound
      · refine .inr ⟨name, _, hold ▸ .rebuild record generation hid hbuilding, rfl,
          fun _ id _ _ h ↦ ⟨h, fun _ hbuilds ↦ ?_⟩⟩
        rw [hold] at hbuilds
        exact absurd hbuilds (hnone id)
    | ready name observation record building partition config placed hrecord hbuilding
      hgeneration =>
      refine .inl ⟨rfl, fun other generation group nodeId h ↦ ?_⟩
      simp only [MetaView.setReady] at h
      split_ifs at h with hsame
      · obtain ⟨rfl, rfl, -, -⟩ := hsame
        exact .inr ⟨record, building, hrecord, hbuilding, hgeneration.symm⟩
      · exact .inl h
    | activate name record building config hrecord hbuilding hcluster hready =>
      refine .inr
        ⟨name, _, hrecord ▸ .activate record building config rfl hbuilding hcluster hready,
        rfl, fun other generation group nodeId h ↦ ?_⟩
      simp only [MetaView.clearReady] at h
      split_ifs at h with hcleared
      · exact absurd rfl h
      · refine ⟨h, fun hother hbuilds ↦ absurd ⟨hother, ?_⟩ hcleared⟩
        obtain ⟨found, built, hfound, hbuilt, rfl⟩ := hbuilds
        obtain rfl : record = found := Option.some.inj (hrecord.symm.trans hfound)
        rw [Option.some.inj (hbuilding.symm.trans hbuilt)]
    | drop name record hrecord =>
      refine .inr ⟨name, some (dropped record), hrecord ▸ .drop record, ?_,
        fun other generation group nodeId h ↦ ?_⟩
      · cases record.building with
        | none => rfl
        | some building => rfl
      · cases hbuilding : record.building with
        | none =>
          rw [hbuilding] at h
          refine ⟨h, fun _ hbuilds ↦ ?_⟩
          obtain ⟨found, built, hfound, hbuilt, -⟩ := hbuilds
          obtain rfl : record = found := Option.some.inj (hrecord.symm.trans hfound)
          rw [hbuilding] at hbuilt
          cases hbuilt
        | some building =>
          rw [hbuilding] at h
          simp only [Option.elim_some, MetaView.clearReady] at h
          split_ifs at h with hcleared
          · exact absurd rfl h
          · refine ⟨h, fun hother hbuilds ↦ absurd ⟨hother, ?_⟩ hcleared⟩
            obtain ⟨found, built, hfound, hbuilt, rfl⟩ := hbuilds
            obtain rfl : record = found := Option.some.inj (hrecord.symm.trans hfound)
            rw [Option.some.inj (hbuilding.symm.trans hbuilt)]
    | finalizeDrop name generation record hrecord =>
      refine .inr ⟨name, _, hrecord ▸ .collect record generation, rfl,
        fun other id group nodeId h ↦ ⟨h, fun _ hbuilds ↦ ?_⟩⟩
      obtain ⟨found, built, hfound, hbuilt, hid⟩ := hbuilds
      obtain rfl : record = found := Option.some.inj (hrecord.symm.trans hfound)
      rw [if_neg (by simp [hbuilt])]
      exact ⟨_, built, rfl, hbuilt, hid⟩

/-! ### The invariant -/

/-- The generations of a changed index are those it had and one with the index of the entry. -/
theorem IndexChange.mem {name : String} {old : Option SearchIndexRecord}
    (h : IndexChange v entry name old (some record)) {id : SearchIndexGenerationId}
    (hid : id ∈ generationIds record) :
    (∃ before, old = some before ∧ id ∈ generationIds before) ∨ id = entry.1.index := by
  generalize hnew : some record = new at h
  cases h with
  | create generation hentry =>
    obtain rfl := Option.some.inj hnew
    simp only [generationIds, freshIndex, Option.toList_none, Option.toList_some, List.map_nil,
      List.map_cons, List.nil_append, List.append_nil, List.mem_singleton] at hid
    exact .inr (hid.trans hentry)
  | rebuild before generation hentry hbuilding =>
    obtain rfl := Option.some.inj hnew
    simp only [generationIds, Option.toList_some, List.map_cons, List.map_nil, List.mem_append,
      List.mem_singleton] at hid
    rcases hid with hactive | hnewest | hretiring
    · exact .inl ⟨before, rfl, List.mem_append_left _ hactive⟩
    · exact .inr (hnewest.trans hentry)
    · exact .inl ⟨before, rfl, List.mem_append_right _ (List.mem_append_right _ hretiring)⟩
  | activate before building config _ hbuilding =>
    obtain rfl := Option.some.inj hnew
    exact .inl ⟨before, rfl, (mem_generationIds_activated hbuilding).mp hid⟩
  | drop before =>
    obtain rfl := Option.some.inj hnew
    exact .inl ⟨before, rfl, mem_generationIds_dropped.mp hid⟩
  | collect before generation =>
    split_ifs at hnew
    obtain rfl := Option.some.inj hnew
    refine .inl ⟨before, rfl, ?_⟩
    refine List.Sublist.subset ?_ hid
    exact (List.filter_sublist.append_left _).append_left _

/-- Assumes: the index had each generation once, and none with the index of the entry. -/
theorem IndexChange.nodup {name : String} {old : Option SearchIndexRecord}
    (h : IndexChange v entry name old (some record))
    (hnodup : ∀ before, old = some before → (generationIds before).Nodup)
    (hfresh : ∀ before, old = some before → entry.1.index ∉ generationIds before) :
    (generationIds record).Nodup := by
  generalize hnew : some record = new at h
  cases h with
  | create generation =>
    obtain rfl := Option.some.inj hnew
    simp [generationIds, freshIndex]
  | rebuild before generation hentry hbuilding =>
    obtain rfl := Option.some.inj hnew
    have hold := hnodup before rfl
    have hnot := hfresh before rfl
    rw [← hentry] at hnot
    simp only [generationIds, hbuilding, Option.toList_none, List.map_nil,
      List.nil_append] at hold hnot
    simp only [generationIds, Option.toList_some, List.map_cons, List.map_nil,
      List.singleton_append]
    exact List.nodup_middle.mpr (List.nodup_cons.mpr ⟨hnot, hold⟩)
  | activate before building config _ hbuilding =>
    obtain rfl := Option.some.inj hnew
    exact nodup_generationIds_activated hbuilding (hnodup before rfl)
  | drop before =>
    obtain rfl := Option.some.inj hnew
    exact nodup_generationIds_dropped (hnodup before rfl)
  | collect before generation =>
    split_ifs at hnew
    obtain rfl := Option.some.inj hnew
    exact (hnodup before rfl).sublist ((List.filter_sublist.append_left _).append_left _)

theorem indexNames_eq_of_searchIndex {w : MetaView} (h : w.searchIndex = v.searchIndex) :
    w.indexNames = v.indexNames := by rw [MetaView.indexNames, MetaView.indexNames, h]

/-- A change adds the name of an index while there is room, or adds none. -/
theorem IndexChange.count {name : String} {index : Option SearchIndexRecord}
    (h : IndexChange v entry name (v.searchIndex name) index)
    (hnext : next.searchIndex = update v.searchIndex name index)
    (hcount : v.indexNames.ncard ≤ SEARCH_MAX_INDEXES) :
    next.indexNames.ncard ≤ SEARCH_MAX_INDEXES := by
  have hsome : index ≠ none → next.indexNames = insert name v.indexNames := by
    intro hne
    ext other
    by_cases hother : other = name
    · simp [MetaView.indexNames, hnext, hother, Option.isSome_iff_ne_none, hne]
    · simp [MetaView.indexNames, hnext, hother]
  have hnone : index = none → next.indexNames = v.indexNames \ {name} := by
    rintro rfl
    ext other
    by_cases hother : other = name
    · simp [MetaView.indexNames, hnext, hother]
    · simp [MetaView.indexNames, hnext, hother]
  by_cases hindex : index = none
  · rw [hnone hindex]
    exact (Set.ncard_sdiff_singleton_le _ _).trans hcount
  · rw [hsome hindex]
    by_cases hold : name ∈ v.indexNames
    · rwa [Set.insert_eq_of_mem hold]
    · have habsent : v.searchIndex name = none := by
        simpa [MetaView.indexNames] using hold
      rw [habsent] at h
      cases h with
      | create generation hid hroom =>
        have := Set.ncard_insert_le name v.indexNames
        omega

/-- No two generations of the catalog have one id, every id is the index of an entry applied before,
the catalog has room, and readiness is reported for building generations only. -/
structure CatalogInvariant (done : List Entry) (v : MetaView) : Prop where
  nodup : ∀ name record, v.searchIndex name = some record → (generationIds record).Nodup
  unique : ∀ name other record found id, v.searchIndex name = some record →
    v.searchIndex other = some found → id ∈ generationIds record → id ∈ generationIds found →
    name = other
  used : ∀ name record id, v.searchIndex name = some record → id ∈ generationIds record →
    id ∈ done.map (·.1.index)
  count : v.indexNames.ncard ≤ SEARCH_MAX_INDEXES
  ready : ∀ name generation group nodeId, v.ready name generation group nodeId ≠ none →
    Builds (v.searchIndex name) generation

/-- A generation of the catalog was one of the same index, or has the index of the entry and belongs
to the index that was changed. -/
theorem IndexChange.generation {name other : String} {index : Option SearchIndexRecord}
    (h : IndexChange v entry name (v.searchIndex name) index)
    (hnext : next.searchIndex = update v.searchIndex name index) {id : SearchIndexGenerationId}
    (hrecord : next.searchIndex other = some record) (hid : id ∈ generationIds record) :
    (∃ before, v.searchIndex other = some before ∧ id ∈ generationIds before) ∨
      (other = name ∧ id = entry.1.index) := by
  rw [hnext] at hrecord
  by_cases hother : other = name
  · subst hother
    rw [update_self] at hrecord
    exact ((hrecord ▸ h).mem hid).imp_right fun hnew ↦ ⟨rfl, hnew⟩
  · rw [update_of_ne hother] at hrecord
    exact .inl ⟨record, hrecord, hid⟩

/-- Every abstract step at a new index keeps the invariant of the catalog. -/
theorem CatalogInvariant.step {done : List Entry} (h : CatalogInvariant done v)
    (hindices : IncreasingIndices (done ++ [entry])) (hstep : Step prims identity v entry next) :
    CatalogInvariant (done ++ [entry]) next := by
  have hmore : ∀ {id}, id ∈ done.map (·.1.index) → id ∈ (done ++ [entry]).map (·.1.index) := by
    intro id hid
    rw [List.map_append]
    exact List.mem_append_left _ hid
  have hfresh : ∀ {name record id}, v.searchIndex name = some record → id ∈ generationIds record →
      id ≠ entry.1.index :=
    fun hrecord hid ↦ hindices.ne (h.used _ _ _ hrecord hid) List.mem_cons_self
  rcases index_cases hstep with ⟨hsame, hready⟩ | ⟨name, index, hchange, hnext, hready⟩
  · refine ⟨?_, ?_, fun name record id hrecord hid ↦ ?_, ?_,
      fun name id group nodeId hreported ↦ ?_⟩
    · rw [hsame]
      exact h.nodup
    · rw [hsame]
      exact h.unique
    · rw [hsame] at hrecord
      exact hmore (h.used name record id hrecord hid)
    · rw [indexNames_eq_of_searchIndex hsame]
      exact h.count
    · rw [hsame]
      rcases hready name id group nodeId hreported with hold | hbuilds
      · exact h.ready name id group nodeId hold
      · exact hbuilds
  · refine ⟨fun other record hrecord ↦ ?_,
      fun first second record found id hrecord hfound hid hid' ↦ ?_,
      fun other record id hrecord hid ↦ ?_, hchange.count hnext h.count,
      fun other id group nodeId hreported ↦ ?_⟩
    · rw [hnext] at hrecord
      by_cases hother : other = name
      · subst hother
        rw [update_self] at hrecord
        exact (hrecord ▸ hchange).nodup (fun before hbefore ↦ h.nodup other before hbefore)
          fun before hbefore hmem ↦ hfresh hbefore hmem rfl
      · rw [update_of_ne hother] at hrecord
        exact h.nodup other record hrecord
    · rcases hchange.generation hnext hrecord hid with ⟨before, hbefore, hmem⟩ | ⟨rfl, hnew⟩ <;>
        rcases hchange.generation hnext hfound hid' with ⟨before', hbefore', hmem'⟩ | ⟨rfl, hnew'⟩
      · exact h.unique first second before before' id hbefore hbefore' hmem hmem'
      · exact absurd hnew' (hfresh hbefore hmem)
      · exact absurd hnew (hfresh hbefore' hmem')
      · rfl
    · rcases hchange.generation hnext hrecord hid with ⟨before, hbefore, hmem⟩ | ⟨-, hnew⟩
      · exact hmore (h.used other before id hbefore hmem)
      · simp [hnew]
    · obtain ⟨hold, hkept⟩ := hready other id group nodeId hreported
      have hbuilds := h.ready other id group nodeId hold
      rw [hnext]
      by_cases hother : other = name
      · subst hother
        rw [update_self]
        exact hkept rfl hbuilds
      · rwa [update_of_ne hother]

theorem CatalogInvariant.trace {epoch : BitVec 128} {entries : List Entry}
    (hindices : IncreasingIndices entries)
    (htrace : Trace (Step prims identity) (MetaView.empty epoch) entries v) :
    CatalogInvariant entries v := by
  refine htrace.invariant (P := CatalogInvariant) ?_ fun done entry mid next hbefore hmid hstep ↦
    hmid.step (hindices.sublist hbefore.sublist) hstep
  refine ⟨fun _ _ h ↦ ?_, fun _ _ _ _ _ h ↦ ?_, fun _ _ _ h ↦ ?_, ?_, fun _ _ _ _ h ↦ absurd rfl h⟩
  · cases h
  · cases h
  · cases h
  · have hempty : (MetaView.empty epoch).indexNames = ∅ := by
      simp [MetaView.indexNames, MetaView.empty]
    rw [hempty, Set.ncard_empty]
    exact Nat.zero_le _

/-- No index has a generation of the id. -/
def Uncatalogued (id : SearchIndexGenerationId) (v : MetaView) : Prop :=
  ∀ name record, v.searchIndex name = some record → id ∉ generationIds record

/-- Assumes: an id that no entry of a trace has for its index. It does not come back. -/
theorem Uncatalogued.trace {id : SearchIndexGenerationId} {entries : List Entry}
    (hunused : ∀ entry ∈ entries, id ≠ entry.1.index)
    (htrace : Trace (Step prims identity) v entries next) (h : Uncatalogued id v) :
    Uncatalogued id next := by
  refine htrace.invariant (P := fun _ w ↦ Uncatalogued id w) h
    fun done entry mid after hbefore hmid hstep name record hrecord hid ↦ ?_
  rcases index_cases hstep with ⟨hsame, -⟩ | ⟨changed, index, hchange, hnext, -⟩
  · rw [hsame] at hrecord
    exact hmid name record hrecord hid
  · rcases hchange.generation hnext hrecord hid with ⟨old, hold, hmem⟩ | ⟨-, hnew⟩
    · exact hmid name old hold hmem
    · exact hunused entry (hbefore.subset (by simp)) hnew

/-! ### Activation and retirement -/

/-- A generation is active because it was, or because it was building and the command activated it,
with every voter of every partition ready; the generation active before then retires. -/
theorem IndexChange.active {name : String} {old : Option SearchIndexRecord}
    (h : IndexChange v entry name old (some record))
    {generation : SearchIndexGeneration} (hactive : record.active = some generation) :
    ∃ before, old = some before ∧
      (before.active = some generation ∨
        (before.building = some generation ∧
          entry.2 = .activateSearchIndexGeneration name generation.id ∧
          (∃ config, v.cluster = some config ∧ ∀ partition < config.p, ∃ placed,
            v.placement (.data partition) = some placed ∧ placed.move = none ∧
              ∀ nodeId ∈ placed.voters, ReadyAt v name generation (.data partition) placed nodeId) ∧
          ∀ previous, before.active = some previous → previous.id ∈ record.retiring)) := by
  generalize hnew : some record = new at h
  cases h with
  | create | drop before =>
    obtain rfl := Option.some.inj hnew
    cases hactive
  | rebuild before =>
    obtain rfl := Option.some.inj hnew
    exact ⟨before, rfl, .inl hactive⟩
  | activate before building config hcmd hbuilding hcluster hready =>
    obtain rfl := Option.some.inj hnew
    obtain rfl : building = generation := Option.some.inj hactive
    refine ⟨before, rfl, .inr ⟨hbuilding, hcmd, ⟨config, hcluster, fun partition hpartition ↦ ?_⟩,
      fun previous hprevious ↦ ?_⟩⟩
    · have hall := hready partition.toNat (UInt16.lt_iff_toNat_lt.mp hpartition)
      rwa [UInt16.ofNat_toNat] at hall
    · exact mem_foldl_retire.mpr (.inr (by simp [hprevious]))
  | collect before generation =>
    split_ifs at hnew
    obtain rfl := Option.some.inj hnew
    exact ⟨before, rfl, .inl hactive⟩

/-- An active generation stays active or retires, and a building one stays, becomes active or
retires. -/
theorem IndexChange.kept {name : String} {before : SearchIndexRecord}
    {index : Option SearchIndexRecord} (h : IndexChange v entry name (some before) index)
    (generation : SearchIndexGeneration) :
    (before.active = some generation → ∃ record, index = some record ∧
      (record.active = some generation ∨ generation.id ∈ record.retiring)) ∧
    (before.building = some generation → ∃ record, index = some record ∧
      (record.building = some generation ∨ record.active = some generation ∨
        generation.id ∈ record.retiring)) := by
  cases h with
  | rebuild _ built _ hbuilding =>
    refine ⟨fun hactive ↦ ⟨_, rfl, .inl hactive⟩, fun hbuilds ↦ ?_⟩
    rw [hbuilding] at hbuilds
    cases hbuilds
  | activate _ building config _ hbuilding =>
    refine ⟨fun hactive ↦ ⟨_, rfl, .inr (mem_foldl_retire.mpr (.inr (by simp [hactive])))⟩,
      fun hbuilds ↦ ⟨_, rfl, .inr (.inl ?_)⟩⟩
    exact hbuilding.symm.trans hbuilds
  | drop =>
    refine ⟨fun hactive ↦ ⟨_, rfl, .inr (mem_foldl_retire.mpr (.inr (by simp [hactive])))⟩,
      fun hbuilds ↦ ⟨_, rfl, .inr (.inr (mem_foldl_retire.mpr (.inr (by simp [hbuilds]))))⟩⟩
  | collect _ collected =>
    refine ⟨fun hactive ↦ ?_, fun hbuilds ↦ ?_⟩
    · rw [if_neg (by simp [hactive])]
      exact ⟨_, rfl, .inl hactive⟩
    · rw [if_neg (by simp [hbuilds])]
      exact ⟨_, rfl, .inl hbuilds⟩

variable (prims) in
/-- Assumes: entries at increasing indices, cut at any entry. They are applied from the empty state
of a replica. At the end the ids of all generations of all indexes are distinct, there are at most
64 indexes with at most 4096 retiring generations each, and readiness is reported for building
generations only. An id that the entry takes out of its index is in no index at the end. A
generation is active after the entry if it was before, or if it was building and the entry activates
it while every partition has a placement without a move whose voters have all reported it ready
under that placement; the generation that was active before then retires. No generation that was
active or building before the entry is lost: it stays, becomes active or retires. -/
theorem search_catalog_lifecycle (identity : Option Identity) (epoch : Option (BitVec 128))
    (first second : List Entry) (entry : Entry)
    (hindices : IncreasingIndices (first ++ entry :: second)) :
    ∃ early mid result next late last,
      run (step prims) (emptyStorage identity epoch) first = .ok (early, mid) ∧
      step prims mid entry = .ok (result, next) ∧
      run (step prims) next second = .ok (late, last) ∧
      (∀ name record, (view last.state).searchIndex name = some record →
        (generationIds record).Nodup ∧ record.retiring.length ≤ 4096 ∧
        ∀ other found, (view last.state).searchIndex other = some found → name ≠ other →
          (generationIds record).Disjoint (generationIds found)) ∧
      (scanPrefix last metaSearchIndexPrefix).length ≤ 64 ∧
      (∀ name generation group nodeId ready,
        (view last.state).ready name generation group nodeId = some ready →
        Builds ((view last.state).searchIndex name) generation) ∧
      (∀ name before id, (view mid.state).searchIndex name = some before →
        id ∈ generationIds before →
        (∀ record, (view next.state).searchIndex name = some record → id ∉ generationIds record) →
        ∀ other found, (view last.state).searchIndex other = some found →
          id ∉ generationIds found) ∧
      (∀ name record generation, (view next.state).searchIndex name = some record →
        record.active = some generation →
          ∃ before, (view mid.state).searchIndex name = some before ∧
        (before.active = some generation ∨
          (before.building = some generation ∧
            entry.2 = .activateSearchIndexGeneration name generation.id ∧
            (∃ config, (view mid.state).cluster = some config ∧ ∀ partition < config.p, ∃ placed,
              (view mid.state).placement (.data partition) = some placed ∧ placed.move = none ∧
                ∀ nodeId ∈ placed.voters, ∃ ready,
                  (view mid.state).ready name generation.id (.data partition) nodeId = some ready ∧
                  ready.votersLogId = placed.votersLogId ∧
                  ready.definitionHash = generation.definitionHash ∧
                  ready.engineRevision = generation.engineRevision) ∧
            ∀ previous, before.active = some previous → previous.id ∈ record.retiring))) ∧
      ∀ name before generation, (view mid.state).searchIndex name = some before →
        (before.active = some generation →
          ∃ record, (view next.state).searchIndex name = some record ∧
            (record.active = some generation ∨ generation.id ∈ record.retiring)) ∧
        (before.building = some generation →
          ∃ record, (view next.state).searchIndex name = some record ∧
            (record.building = some generation ∨ record.active = some generation ∨
              generation.id ∈ record.retiring)) := by
  obtain ⟨early, mid, hearly, rfl, hmid, hfirst⟩ := exists_run prims identity epoch first
  obtain ⟨result, next, hnext, hidentity, hwell, hstep⟩ := exists_step hmid entry
  obtain ⟨late, last, hlate, -, hlast, hsecond⟩ := exists_run_from hwell second
  rw [hidentity] at hsecond
  have hbefore := CatalogInvariant.trace (hindices.sublist (List.sublist_append_left _ _)) hfirst
  have hall :
      Trace (Step prims mid.identity) (MetaView.empty (epoch.getD 0)) (first ++ entry :: second)
      (view last.state) := by
    have hcut := (hfirst.concat hstep).append hsecond
    rwa [List.append_assoc] at hcut
  have hinv := CatalogInvariant.trace hindices hall
  refine ⟨early, mid, result, next, late, last, hearly, hnext, hlate, fun name record hrecord ↦
    ⟨hinv.nodup name record hrecord, ?_, fun other found hfound hne id hid hid' ↦ ?_⟩, ?_,
    fun name generation group nodeId ready hready ↦ ?_, fun name before id hrecord hid hgone ↦ ?_,
    fun name record generation hrecord hactive ↦ ?_, fun name before generation hrecord ↦ ?_⟩
  · exact (SearchIndexRecord.validate_eq_ok_iff.mp (hlast.searchIndex_valid hrecord).2).2.1
  · exact hne (hinv.unique name other record found id hrecord hfound hid hid')
  · obtain ⟨records, hscan, hcatalogs⟩ := hlast.catalog_returns
    rw [hscan, List.length_map, ← hcatalogs.ncard_indexNames]
    exact hinv.count
  · exact hinv.ready name generation group nodeId (by simp [hready])
  · -- the id was in this index only, and no later entry has its index
    have hused := hbefore.used name before id hrecord hid
    have hnone : Uncatalogued id (view next.state) := by
      intro other record hother hmem
      rcases index_cases hstep with ⟨hsame, -⟩ | ⟨changed, index, hchange, hupdate, -⟩
      · rw [hsame] at hother
        obtain rfl := hbefore.unique name other before record id hrecord hother hid hmem
        exact hgone record (by rwa [hsame]) hmem
      · rcases hchange.generation hupdate hother hmem with ⟨found, hfound, hmem'⟩ | ⟨-, hnew⟩
        · obtain rfl := hbefore.unique name other before found id hrecord hfound hid hmem'
          exact hgone record hother hmem
        · exact hindices.ne hused List.mem_cons_self hnew
    exact hnone.trace (fun later hlater ↦ hindices.ne hused (List.mem_cons_of_mem _ hlater)) hsecond
  · rcases index_cases hstep with ⟨hsame, -⟩ | ⟨changed, index, hchange, hupdate, -⟩
    · rw [hsame] at hrecord
      exact ⟨record, hrecord, .inl hactive⟩
    · rw [hupdate] at hrecord
      by_cases hname : name = changed
      · subst hname
        rw [update_self] at hrecord
        exact (hrecord ▸ hchange).active hactive
      · rw [update_of_ne hname] at hrecord
        exact ⟨record, hrecord, .inl hactive⟩
  · rcases index_cases hstep with ⟨hsame, -⟩ | ⟨changed, index, hchange, hupdate, -⟩
    · rw [hsame]
      exact ⟨fun h ↦ ⟨before, hrecord, .inl h⟩, fun h ↦ ⟨before, hrecord, .inl h⟩⟩
    · rw [hupdate]
      by_cases hname : name = changed
      · subst hname
        rw [update_self]
        exact (hrecord ▸ hchange).kept generation
      · rw [update_of_ne hname]
        exact ⟨fun h ↦ ⟨before, hrecord, .inl h⟩, fun h ↦ ⟨before, hrecord, .inl h⟩⟩

/-- An index is dropped before its first generation is active. -/
theorem search_catalog_lifecycle_drop :
    let prims : Primitives := ⟨fun _ ↦ Vector.replicate 32 0, id⟩
    let definition : SearchIndexDefinition :=
      ⟨"note", [⟨"title", [.key "title"], .keyword, true, false, true, true, false⟩], ["title"]⟩
    let entries : List Entry :=
      [(⟨1, 1⟩, .clusterInit ⟨7, PROTOCOL_VERSION, 4, 3, .CANONICAL⟩ [1, 2, 3]),
        (⟨1, 2⟩, .createSearchIndex "notes" definition)]
    ∃ early mid result next late last,
      run (step prims) (emptyStorage (some ⟨7, 1⟩) none) entries = .ok (early, mid) ∧
      step prims mid (⟨1, 3⟩, .dropSearchIndex "notes") = .ok (result, next) ∧
      run (step prims) next [(⟨1, 4⟩, .finalizeSearchIndexDrop "notes" 2)] = .ok (late, last) ∧
      (scanPrefix last metaSearchIndexPrefix).length ≤ 64 := by
  intro prims definition entries
  obtain ⟨early, mid, result, next, late, last, hrun, hstep, hlate, -, hcount, -⟩ :=
    search_catalog_lifecycle prims (some ⟨7, 1⟩) none entries
      [(⟨1, 4⟩, .finalizeSearchIndexDrop "notes" 2)] (⟨1, 3⟩, .dropSearchIndex "notes") (by decide)
  exact ⟨early, mid, result, next, late, last, hrun, hstep, hlate, hcount⟩

end DalService.Meta
