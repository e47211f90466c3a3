import DalService.Storage.Host

/-!
# A log that can be replayed

What the log of a group has to satisfy, together with the applied index of the state beside it, so
that a restart can go on from there (`Replayable`): the entries above the purge marker are
consecutive from the marker on, the purge marker and the committed marker are not above the applied
index, and the entries promised to the leader that the state does not have yet are there.

Each write of the log store keeps it: an append (`Replayable.put`), the range delete of a truncation
(`Replayable.deleteRange`), the purge marker (`Replayable.purge`), and the deletes below the marker
(`Replayable.discard`). So does a state that only moves forward (`Replayable.raise`).
-/

set_option autoImplicit false

namespace DalService.Storage

open Foundation Keyspace DalService.Partition

variable {V P : Type}

/-- What a node owes: applied indices its state has durably reached, entries its log has durably
taken, and the state column families that may not be in use. -/
structure Promise (P : Type) where
  marks : List ℕ
  entries : List (LogEntry P)
  doomed : List (Option UInt64)

/-- Every number of one list is at most some number of the other. -/
def Dominated (weak strong : List ℕ) : Prop := ∀ mark ∈ weak, ∃ above ∈ strong, mark ≤ above

theorem Dominated.of_subset {weak strong : List ℕ} (h : weak ⊆ strong) : Dominated weak strong :=
  fun mark hmark ↦ ⟨mark, h hmark, le_rfl⟩

/-- A bound of the one list bounds the other. -/
theorem Dominated.le {weak strong : List ℕ} (h : Dominated weak strong) {bound : ℕ}
    (hbound : ∀ mark ∈ strong, mark ≤ bound) : ∀ mark ∈ weak, mark ≤ bound := by
  intro mark hmark
  obtain ⟨above, habove, hle⟩ := h mark hmark
  exact hle.trans (hbound above habove)

theorem Dominated.refl (marks : List ℕ) : Dominated marks marks := .of_subset (List.Subset.refl _)

/-- One promise asks for no more than another. -/
structure Promise.Le (weak strong : Promise P) : Prop where
  marks : Dominated weak.marks strong.marks
  entries : weak.entries ⊆ strong.entries
  doomed : weak.doomed ⊆ strong.doomed

/-- The entries above the purge marker have consecutive indices, starting right above it. -/
def ConsecutiveAbove (start : ℕ) (entries : Std.ExtTreeMap UInt64 (LogEntry P)) : Prop :=
  ∀ index ∈ entries, ∀ below : UInt64, start ≤ below.toNat → below ≤ index → below ∈ entries

/-- Every entry is stored under its index. -/
def Keyed (entries : Std.ExtTreeMap UInt64 (LogEntry P)) : Prop :=
  ∀ (index : UInt64) (entry : LogEntry P), entries[index]? = some entry → entry.logId.index = index

/-- The log can be replayed over a state that has applied every index below `applied`. -/
structure Replayable (owed : List (LogEntry P)) (log : LogCf P) (applied : ℕ) : Prop where
  keyed : Keyed log.entries
  bounded : lastIndex ∉ log.entries
  consecutive : ConsecutiveAbove (next log.purged) log.entries
  purged_le : next log.purged ≤ applied
  committed_le : next log.committed ≤ applied
  kept : ∀ entry ∈ owed, applied ≤ entry.logId.index.toNat →
    log.entries[entry.logId.index]? = some entry

namespace Replayable

variable {owed weak : List (LogEntry P)} {log : LogCf P} {applied : ℕ}

theorem mono (h : Replayable owed log applied) (hentries : weak ⊆ owed) :
    Replayable weak log applied where
  keyed := h.keyed
  bounded := h.bounded
  consecutive := h.consecutive
  purged_le := h.purged_le
  committed_le := h.committed_le
  kept := fun entry hentry ↦ h.kept entry (hentries hentry)

/-- The empty log of a new group. -/
theorem empty : Replayable [] (.empty : LogCf P) applied where
  keyed := fun index entry h ↦ by simp [LogCf.empty] at h
  bounded := by simp [LogCf.empty]
  consecutive := fun index h ↦ by simp [LogCf.empty] at h
  purged_le := Nat.zero_le _
  committed_le := Nat.zero_le _
  kept := by simp

/-- The state moves forward, and the committed marker with it. -/
theorem raise {applied' : ℕ} {committed : Option RaftLogId} (h : Replayable owed log applied)
    (hle : applied ≤ applied') (hcommitted : next committed ≤ applied')
    (hentries : weak ⊆ owed) : Replayable weak { log with committed := committed } applied' where
  keyed := h.keyed
  bounded := h.bounded
  consecutive := h.consecutive
  purged_le := h.purged_le.trans hle
  committed_le := hcommitted
  kept := fun entry hentry habove ↦ h.kept entry (hentries hentry) (hle.trans habove)

/-! ### Appending -/

theorem lt_next_lastLogId (hkeyed : Keyed log.entries) {index : UInt64}
    (hmem : index ∈ log.entries) : index.toNat < next log.lastLogId := by
  cases hlast : log.lastEntryId with
  | none => simp [LogCf.lastEntryId_eq_none_iff.mp hlast] at hmem
  | some logId =>
    obtain ⟨highest, entry, hentry, rfl, hall⟩ := LogCf.exists_of_lastEntryId hlast
    have hindex := hkeyed highest entry hentry
    have := UInt64.le_iff_toNat_le.mp (hall index hmem)
    rw [LogCf.lastLogId, hlast, Option.some_or, next_some, hindex]
    omega

/-- The index before the next one is in the log, unless the log ends at the purge marker. -/
theorem mem_or_next_eq_purged (hkeyed : Keyed log.entries) :
    (∃ index ∈ log.entries, index.toNat + 1 = next log.lastLogId) ∨
      log.entries = ∅ ∧ next log.lastLogId = next log.purged := by
  cases hlast : log.lastEntryId with
  | none =>
    exact .inr
      ⟨LogCf.lastEntryId_eq_none_iff.mp hlast, by rw [LogCf.lastLogId, hlast, Option.none_or]⟩
  | some logId =>
    obtain ⟨highest, entry, hentry, rfl, -⟩ := LogCf.exists_of_lastEntryId hlast
    refine .inl ⟨highest, Std.ExtTreeMap.mem_iff_isSome_getElem?.mpr (by rw [hentry]; rfl), ?_⟩
    rw [LogCf.lastLogId, hlast, Option.some_or, next_some, hkeyed highest entry hentry]

theorem entries_put_singleton (entry : LogEntry P) (index : UInt64) :
    (log.put [entry]).entries[index]? =
      if entry.logId.index = index then some entry else log.entries[index]? := by
  simp [LogCf.put, Std.ExtTreeMap.getElem?_insert]

/-- One entry is appended at the next index. -/
theorem put_singleton (h : Replayable owed log applied) {entry : LogEntry P}
    (hindex : entry.logId.index.toNat = next log.lastLogId)
    (hbound : entry.logId.index ≠ lastIndex) :
    Replayable (owed ++ [entry]) (log.put [entry]) applied := by
  have hnew : entry.logId.index ∉ log.entries := fun hmem ↦ by
    have := lt_next_lastLogId h.keyed hmem
    omega
  have hmem : ∀ index, index ∈ (log.put [entry]).entries ↔
      index = entry.logId.index ∨ index ∈ log.entries := by
    intro index
    rw [Std.ExtTreeMap.mem_iff_isSome_getElem?, entries_put_singleton,
      Std.ExtTreeMap.mem_iff_isSome_getElem?]
    split_ifs with hsame
    · simp [hsame]
    · simp [Ne.symm hsame]
  constructor
  · intro index found hfound
    rw [entries_put_singleton] at hfound
    split_ifs at hfound with hsame
    · cases hfound
      exact hsame
    · exact h.keyed index found hfound
  · rw [hmem]
    rintro (hlast | hold)
    · exact hbound hlast.symm
    · exact h.bounded hold
  · intro index hin below hpurged hbelow
    rw [hmem] at hin ⊢
    rcases hin with rfl | hold
    · rcases eq_or_ne below entry.logId.index with rfl | hne
      · exact .inl rfl
      · right
        have hlt : below.toNat < entry.logId.index.toNat :=
          lt_of_le_of_ne (UInt64.le_iff_toNat_le.mp hbelow) fun hsame ↦
            hne (UInt64.toNat_inj.mp hsame)
        rcases mem_or_next_eq_purged h.keyed with ⟨highest, hhighest, hnext⟩ | ⟨-, hend⟩
        · exact h.consecutive highest hhighest below hpurged
            (UInt64.le_iff_toNat_le.mpr (by omega))
        · exact absurd hpurged (by simp only [LogCf.put]; omega)
    · exact .inr (h.consecutive index hold below hpurged hbelow)
  · exact h.purged_le
  · exact h.committed_le
  · intro kept hkept habove
    rw [entries_put_singleton]
    rcases List.mem_append.mp hkept with hold | hadded
    · have hstored := h.kept kept hold habove
      rw [if_neg fun hsame ↦ hnew ?_]
      · exact hstored
      · rw [hsame, Std.ExtTreeMap.mem_iff_isSome_getElem?, hstored]
        rfl
    · rw [List.mem_singleton.mp hadded, if_pos rfl]

theorem next_lastLogId_put_singleton (h : Replayable owed log applied) {entry : LogEntry P}
    (hindex : entry.logId.index.toNat = next log.lastLogId)
    (hbound : entry.logId.index ≠ lastIndex) :
    next (log.put [entry]).lastLogId = entry.logId.index.toNat + 1 := by
  have hafter := h.put_singleton hindex hbound
  have hmem : entry.logId.index ∈ (log.put [entry]).entries := by
    rw [Std.ExtTreeMap.mem_iff_isSome_getElem?, entries_put_singleton, if_pos rfl]
    rfl
  refine le_antisymm ?_ (lt_next_lastLogId hafter.keyed hmem)
  rcases mem_or_next_eq_purged hafter.keyed with ⟨highest, hhighest, hnext⟩ | ⟨hempty, -⟩
  · rw [Std.ExtTreeMap.mem_iff_isSome_getElem?, entries_put_singleton] at hhighest
    split_ifs at hhighest with hsame
    · rw [← hnext, hsame]
    · have := lt_next_lastLogId h.keyed (Std.ExtTreeMap.mem_iff_isSome_getElem?.mpr hhighest)
      omega
  · simp [hempty] at hmem

/-- Entries are appended from the next index on. -/
theorem put (h : Replayable owed log applied) {entries : List (LogEntry P)}
    (hfollows : IndicesFrom (next log.lastLogId) entries)
    (hbound : ∀ entry ∈ entries, entry.logId.index ≠ lastIndex) :
    Replayable (owed ++ entries) (log.put entries) applied := by
  induction entries generalizing owed log with
  | nil => simpa [LogCf.put] using h
  | cons entry rest ih =>
    obtain ⟨hindex, hrest⟩ := hfollows
    have hentry := hbound entry (List.mem_cons_self ..)
    have hnext := h.next_lastLogId_put_singleton hindex hentry
    have hone := ih (h.put_singleton hindex hentry) (by rw [hnext, hindex]; exact hrest)
      fun e he ↦ hbound e (List.mem_cons_of_mem _ he)
    simpa [LogCf.put] using hone

/-! ### Deleting -/

/-- The entries from `index` on are deleted, and owed no longer. -/
theorem deleteRange (h : Replayable owed log applied) {index : UInt64}
    (hentries : ∀ entry ∈ weak, entry ∈ owed ∧ entry.logId.index < index) :
    Replayable weak (log.deleteRange index lastIndex) applied := by
  have hmem : ∀ i, i ∈ (log.deleteRange index lastIndex).entries ↔ i ∈ log.entries ∧ i < index := by
    intro i
    rw [Std.ExtTreeMap.mem_iff_isSome_getElem?, LogCf.entries_deleteRange,
      Std.ExtTreeMap.mem_iff_isSome_getElem?]
    split_ifs with hrange
    · simpa using fun _ ↦ hrange.1
    · refine ⟨fun hin ↦ ⟨hin, ?_⟩, fun hin ↦ hin.1⟩
      by_contra hle
      have hlast : i = lastIndex := by
        rw [← UInt64.toNat_inj]
        have hge : ¬i < lastIndex := fun hlt ↦ hrange ⟨UInt64.not_lt.mp hle, hlt⟩
        have := mt UInt64.lt_iff_toNat_lt.mpr hge
        have htop : lastIndex.toNat = 2 ^ 64 - 1 := by decide
        have := i.toNat_lt
        omega
      rw [hlast] at hin
      exact h.bounded (Std.ExtTreeMap.mem_iff_isSome_getElem?.mpr hin)
  constructor
  · intro i found hfound
    rw [LogCf.entries_deleteRange] at hfound
    split_ifs at hfound
    exact h.keyed i found hfound
  · exact fun hlast ↦ h.bounded ((hmem _).mp hlast).1
  · intro i hin below hpurged hbelow
    obtain ⟨hold, hlt⟩ := (hmem i).mp hin
    refine (hmem below).mpr ⟨h.consecutive i hold below hpurged hbelow, ?_⟩
    have := UInt64.lt_iff_toNat_lt.mp hlt
    have := UInt64.le_iff_toNat_le.mp hbelow
    exact UInt64.lt_iff_toNat_lt.mpr (by omega)
  · exact h.purged_le
  · exact h.committed_le
  · intro entry hentry habove
    obtain ⟨hold, hlt⟩ := hentries entry hentry
    rw [LogCf.entries_deleteRange, if_neg fun hrange ↦ ?_]
    · exact h.kept entry hold habove
    · have := UInt64.lt_iff_toNat_lt.mp hlt
      have := UInt64.le_iff_toNat_le.mp hrange.1
      omega

/-- The purge marker rises to an index the state has durably reached. -/
theorem purge (h : Replayable owed log applied) {logId : RaftLogId}
    (hmonotone : next log.purged ≤ logId.index.toNat + 1) (hreached : logId.index.toNat < applied) :
    Replayable owed { log with purged := some logId } applied where
  keyed := h.keyed
  bounded := h.bounded
  consecutive := fun index hin below hpurged hbelow ↦
    h.consecutive index hin below (hmonotone.trans hpurged) hbelow
  purged_le := hreached
  committed_le := h.committed_le
  kept := h.kept

/-- Entries up to the purge marker are deleted. -/
theorem discard (h : Replayable owed log applied)
    {entries : Std.ExtTreeMap UInt64 (LogEntry P)}
    (hdiscard : ∀ index : UInt64, entries[index]? = log.entries[index]? ∨
      entries[index]? = none ∧ (index.toNat < next log.purged ∨ index ∉ log.entries)) :
    Replayable owed { log with entries := entries } applied := by
  have hsub : ∀ index, index ∈ entries → index ∈ log.entries := by
    intro index hin
    rw [Std.ExtTreeMap.mem_iff_isSome_getElem?] at hin ⊢
    rcases hdiscard index with hsame | ⟨hnone, -⟩
    · rwa [← hsame]
    · simp [hnone] at hin
  have habove : ∀ index : UInt64, next log.purged ≤ index.toNat →
      entries[index]? = log.entries[index]? := by
    intro index hle
    rcases hdiscard index with hsame | ⟨hnone, hbelow | hout⟩
    · exact hsame
    · omega
    · rw [hnone, Std.ExtTreeMap.getElem?_eq_none hout]
  constructor
  · intro index found hfound
    rcases hdiscard index with hsame | ⟨hnone, -⟩
    · exact h.keyed index found (hsame ▸ hfound)
    · simp [hnone] at hfound
  · exact fun hlast ↦ h.bounded (hsub _ hlast)
  · intro index hin below hpurged hbelow
    have hold := h.consecutive index (hsub _ hin) below hpurged hbelow
    rw [Std.ExtTreeMap.mem_iff_isSome_getElem?] at hold ⊢
    rwa [habove below hpurged]
  · exact h.purged_le
  · exact h.committed_le
  · intro entry hentry hle
    have hkept := h.kept entry hentry hle
    have hpurged : next log.purged ≤ entry.logId.index.toNat := h.purged_le.trans hle
    dsimp only
    rw [habove entry.logId.index hpurged, hkept]

/-- The delete of the highest index of all deletes nothing. -/
theorem delete_lastIndex (h : Replayable owed log applied) :
    Replayable owed (log.delete lastIndex) applied := by
  refine h.discard fun index ↦ ?_
  have hentries := log.entries_delete lastIndex index
  rw [LogCf.delete] at hentries
  rw [hentries]
  split_ifs with hsame
  · exact .inr ⟨rfl, .inr (hsame ▸ h.bounded)⟩
  · exact .inl rfl

/-- The range delete of a purge. -/
theorem sweep (h : Replayable owed log applied) {logId : RaftLogId}
    (hmarked : log.purged = some logId) :
    Replayable owed (log.deleteRange 0 logId.index) applied := by
  refine h.discard fun index ↦ ?_
  have hentries := log.entries_deleteRange 0 logId.index index
  rw [LogCf.deleteRange] at hentries
  rw [hentries]
  split_ifs with hrange
  · refine .inr ⟨rfl, .inl ?_⟩
    have := UInt64.lt_iff_toNat_lt.mp hrange.2
    rw [hmarked, next_some]
    omega
  · exact .inl rfl

/-- The last delete of a purge. -/
theorem delete_marked (h : Replayable owed log applied) {logId : RaftLogId}
    (hmarked : log.purged = some logId) : Replayable owed (log.delete logId.index) applied := by
  refine h.discard fun index ↦ ?_
  have hentries := log.entries_delete logId.index index
  rw [LogCf.delete] at hentries
  rw [hentries]
  split_ifs with hsame
  · exact .inr ⟨rfl, .inl (by rw [hmarked, next_some, hsame]; omega)⟩
  · exact .inl rfl

end Replayable

end DalService.Storage
