import DalService.Meta.Liveness

/-!
# The address book

A node keeps the endpoints of the others in an address book (`transport/raft_net.rs`) and merges
directory snapshots into it as they come in, in whatever order and however often
(`AddrBook.updateDirectory`). An entry with a higher incarnation replaces the one before, and one
with the same incarnation and other addresses is reported as a conflict.

The replicated directory never gives two pairs of addresses to one incarnation of a node
(`sameEndpoints_of_trace`), so the merge of snapshots of one run is a join: it reports no conflict,
and the book it ends with has, for each node, the entry of the highest incarnation
(`address_book_converges`).
-/

set_option autoImplicit false

namespace DalService.Transport

open Foundation Meta
open Function (update update_of_ne)

/-! ### The book -/

inductive DirectoryMergeError
  | conflictingIncarnation (nodeId : NodeId) (incarnation : UInt64)
  deriving DecidableEq, Repr

def DirectoryMergeError.message : DirectoryMergeError → String
  | .conflictingIncarnation nodeId incarnation =>
    "node " ++ toString nodeId ++ " has conflicting endpoints at incarnation " ++
      toString incarnation

/-- The endpoints of each node, control and bulk, and the incarnation they were merged at. An
endpoint that was set has none. -/
@[ext] structure AddrBook where
  inner : NodeId → Option (String × String)
  incarnations : NodeId → Option UInt64

namespace AddrBook

def new : AddrBook := ⟨fun _ ↦ none, fun _ ↦ none⟩

def set (book : AddrBook) (id : NodeId) (controlAddr bulkAddr : String) : AddrBook :=
  { book with inner := update book.inner id (some (controlAddr, bulkAddr)) }

/-- The endpoints of an entry are entered at its incarnation. -/
def enter (book : AddrBook) (entry : NodeDirectoryEntry) : AddrBook where
  inner := update book.inner entry.nodeId (some (entry.controlAddr, entry.bulkAddr))
  incarnations := update book.incarnations entry.nodeId (some entry.incarnation)

def mergeEntry (book : AddrBook) (entry : NodeDirectoryEntry) :
    Except DirectoryMergeError AddrBook :=
  match book.incarnations entry.nodeId with
  | some previous =>
    if entry.incarnation < previous then .ok book
    else if entry.incarnation = previous then
      match book.inner entry.nodeId with
      | some (control, bulk) =>
        if control ≠ entry.controlAddr ∨ bulk ≠ entry.bulkAddr then
          .error (.conflictingIncarnation entry.nodeId entry.incarnation)
        else .ok book
      | none => .ok book
    else .ok (book.enter entry)
  | none => .ok (book.enter entry)

/-- Merge a snapshot of the directory. The book changes only if no entry conflicts. -/
def updateDirectory (book : AddrBook) (directory : List NodeDirectoryEntry) :
    Except DirectoryMergeError AddrBook :=
  directory.foldlM mergeEntry book

end AddrBook

/-! ### Endpoints within an incarnation -/

/-- Two entries do not give two pairs of endpoints to one incarnation of a node. -/
def SameEndpoints (first second : NodeDirectoryEntry) : Prop :=
  first.nodeId = second.nodeId → first.incarnation = second.incarnation →
    first.controlAddr = second.controlAddr ∧ first.bulkAddr = second.bulkAddr

variable {prims : Primitives} {identity : Option Identity} {v next : MetaView}

/-- A step that keeps the incarnation of a node keeps its endpoints. -/
theorem endpoints_of_step {entry : Entry} (hstep : Step prims identity v entry next) {id : NodeId}
    {old new : NodeDirectoryEntry} (hold : v.node id = some old) (hnew : next.node id = some new)
    (hincarnation : old.incarnation = new.incarnation) :
    old.controlAddr = new.controlAddr ∧ old.bulkAddr = new.bulkAddr := by
  have hkept (hsame : next.node id = v.node id) :
      old.controlAddr = new.controlAddr ∧ old.bulkAddr = new.bulkAddr := by
    obtain rfl : old = new := Option.some.inj (hold.symm.trans (hsame.symm.trans hnew))
    exact ⟨rfl, rfl⟩
  rcases hstep with rfl | heffect
  · exact hkept rfl
  obtain ⟨logId, cmd⟩ := entry
  rcases heffect.control_cases with hdirectory | ⟨group, placed, -, rfl⟩ | hsame
  · cases hdirectory with
    | clusterInit => exact hkept rfl
    | registerNode nodeId controlAddr bulkAddr incarnation _ _ _ _ _ _ _ _ _ _ hregisters =>
      rcases update_eq_some hnew with ⟨rfl, rfl⟩ | ⟨hid, -⟩
      · -- a registration moves a listed node to the next incarnation
        rw [hold] at hregisters
        have hnext := hregisters.succ
        have hsame : old.incarnation = incarnation := hincarnation
        rw [hsame] at hnext
        omega
      · exact hkept (update_of_ne hid _ _)
    | setNodeState nodeId state listed hlisted =>
      rcases update_eq_some hnew with ⟨rfl, rfl⟩ | ⟨hid, -⟩
      · cases hold.symm.trans hlisted
        exact ⟨rfl, rfl⟩
      · exact hkept (update_of_ne hid _ _)
    | retireNode nodeId =>
      exact hkept (update_of_ne (update_none_eq_some hnew).1 _ _)
  · exact hkept rfl
  · exact hkept (congrFun hsame.node id)

/-- Between two states of a run a node keeps its endpoints if it keeps its incarnation. It was
listed at every state between, since a retired node does not come back, and its incarnation never
went down. -/
theorem endpoints_of_trace {epoch : BitVec 128} {first rest : List Entry} {w : MetaView}
    (hfirst : Trace (Step prims identity) (MetaView.empty epoch) first v)
    (hrest : Trace (Step prims identity) v rest w) {id : NodeId} {old new : NodeDirectoryEntry}
    (hold : v.node id = some old) (hnew : w.node id = some new)
    (hincarnation : old.incarnation = new.incarnation) :
    old.controlAddr = new.controlAddr ∧ old.bulkAddr = new.bulkAddr := by
  induction hrest generalizing new with
  | nil =>
    obtain rfl : old = new := Option.some.inj (hold.symm.trans hnew)
    exact ⟨rfl, rfl⟩
  | concat hbefore hlast ih =>
    rename_i mid last
    have hfollows : Follows v mid :=
      hbefore.stable (fun hstep hmid ↦ hmid.trans (Follows.step hstep)) (Follows.refl v)
    have hafter := Follows.step hlast
    have hinv : DirectoryInvariant last :=
      DirectoryInvariant.trace ((hfirst.append hbefore).concat hlast)
    have hlisted : last.retired id = none := by
      by_contra hretired
      obtain ⟨incarnation, hsome⟩ := Option.ne_none_iff_exists'.mp hretired
      rw [hinv.retired_node id incarnation hsome] at hnew
      cases hnew
    obtain ⟨between, hbetween, hle⟩ | hretired := hfollows.node id old hold
    · obtain ⟨new', hnew', hle'⟩ | hretired := hafter.node id between hbetween
      · obtain rfl : new = new' := Option.some.inj (hnew.symm.trans hnew')
        have hsame : between.incarnation = new.incarnation :=
          UInt64.le_antisymm hle'.incarnation_le (hincarnation ▸ hle.incarnation_le)
        obtain ⟨hcontrol, hbulk⟩ := ih hbetween (hincarnation.trans hsame.symm)
        obtain ⟨hcontrol', hbulk'⟩ := endpoints_of_step hlast hbetween hnew hsame
        exact ⟨hcontrol.trans hcontrol', hbulk.trans hbulk'⟩
      · exact absurd hlisted hretired
    · exact absurd hlisted (hafter.retired id hretired)

/-! ### The merge is a join -/

/-- What the book is after entries were merged into a book without incarnations: a node in none of
them is as it was, and any other has the entry of its highest incarnation. -/
structure Merged (start : AddrBook) (entries : List NodeDirectoryEntry)
    (book : AddrBook) : Prop where
  others : ∀ id, (∀ entry ∈ entries, entry.nodeId ≠ id) →
    book.inner id = start.inner id ∧ book.incarnations id = none
  highest : ∀ entry ∈ entries, ∃ highest ∈ entries, highest.nodeId = entry.nodeId ∧
    (∀ other ∈ entries, other.nodeId = entry.nodeId → other.incarnation ≤ highest.incarnation) ∧
    book.inner entry.nodeId = some (highest.controlAddr, highest.bulkAddr) ∧
    book.incarnations entry.nodeId = some highest.incarnation

variable {start book : AddrBook} {entries : List NodeDirectoryEntry}

theorem Merged.nil (hstart : start.incarnations = fun _ ↦ none) : Merged start [] start :=
  ⟨fun _ _ ↦ ⟨rfl, congrFun hstart _⟩, by simp⟩

/-- An entry of a new node, or of a higher incarnation than its node had, is entered. -/
theorem Merged.enter (h : Merged start entries book) {entry : NodeDirectoryEntry}
    (hhigher : ∀ other ∈ entries, other.nodeId = entry.nodeId →
      other.incarnation ≤ entry.incarnation) :
    Merged start (entries ++ [entry]) (book.enter entry) := by
  refine ⟨fun id hid ↦ ?_, fun other hother ↦ ?_⟩
  · have hne : id ≠ entry.nodeId := fun h ↦ hid entry (by simp) h.symm
    simpa [AddrBook.enter, update_of_ne hne] using
      h.others id fun other hother ↦ hid other (by simp [hother])
  · by_cases hsame : other.nodeId = entry.nodeId
    · refine ⟨entry, by simp, hsame.symm,
        fun third hthird hid ↦ ?_, by simp [AddrBook.enter, hsame], by simp [AddrBook.enter, hsame]⟩
      obtain hmem | rfl := by simpa using hthird
      · exact hhigher third hmem (hid.trans hsame)
      · exact UInt64.le_refl _
    · have hmem : other ∈ entries := by
        obtain hmem | rfl := by simpa using hother
        · exact hmem
        · exact absurd rfl hsame
      obtain ⟨highest, hhighest, hid, hbound, hinner, hincarnation⟩ := h.highest other hmem
      refine ⟨highest, by simp [hhighest], hid, fun third hthird hthirdId ↦ ?_,
        by simpa [AddrBook.enter, update_of_ne hsame] using hinner,
        by simpa [AddrBook.enter, update_of_ne hsame] using hincarnation⟩
      obtain hthirdMem | rfl := by simpa using hthird
      · exact hbound third hthirdMem hthirdId
      · exact absurd hthirdId.symm hsame

/-- An entry of no higher incarnation than its node has changes nothing. -/
theorem Merged.keep (h : Merged start entries book) {entry highest : NodeDirectoryEntry}
    (hhighest : highest ∈ entries) (hid : highest.nodeId = entry.nodeId)
    (hle : entry.incarnation ≤ highest.incarnation) :
    Merged start (entries ++ [entry]) book := by
  have hlisted : ∀ other ∈ entries ++ [entry], ∃ found ∈ entries, found.nodeId = other.nodeId ∧
      other.incarnation ≤ found.incarnation := by
    intro other hother
    obtain hmem | rfl := by simpa using hother
    · exact ⟨other, hmem, rfl, UInt64.le_refl _⟩
    · exact ⟨highest, hhighest, hid, hle⟩
  refine ⟨fun id hnone ↦ h.others id fun other hother ↦ hnone other (by simp [hother]),
    fun other hother ↦ ?_⟩
  obtain ⟨found, hfound, hfoundId, -⟩ := hlisted other hother
  obtain ⟨top, htop, htopId, hbound, hinner, hincarnation⟩ := h.highest found hfound
  rw [hfoundId] at htopId hbound hinner hincarnation
  refine ⟨top, by simp [htop], htopId, fun third hthird hthirdId ↦ ?_, hinner, hincarnation⟩
  obtain ⟨fourth, hfourth, hfourthId, hle'⟩ := hlisted third hthird
  exact UInt64.le_trans hle' (hbound fourth hfourth (hfourthId.trans hthirdId))

/-- One entry is merged without a conflict when its incarnation has one pair of endpoints. -/
theorem Merged.mergeEntry (h : Merged start entries book) {entry : NodeDirectoryEntry}
    (hsame : ∀ other ∈ entries, SameEndpoints other entry) :
    ∃ after, book.mergeEntry entry = .ok after ∧ Merged start (entries ++ [entry]) after := by
  by_cases hnew : ∀ other ∈ entries, other.nodeId ≠ entry.nodeId
  · refine ⟨book.enter entry, ?_, h.enter fun other hother hid ↦ absurd hid (hnew other hother)⟩
    rw [AddrBook.mergeEntry, (h.others entry.nodeId hnew).2]
  · push Not at hnew
    obtain ⟨known, hknown, hknownId⟩ := hnew
    obtain ⟨highest, hhighest, hid, hbound, hinner, hincarnation⟩ := h.highest known hknown
    rw [hknownId] at hid hbound hinner hincarnation
    simp only [AddrBook.mergeEntry, hincarnation, hinner]
    by_cases hlower : entry.incarnation < highest.incarnation
    · rw [if_pos hlower]
      exact ⟨book, rfl, h.keep hhighest hid (UInt64.le_of_lt hlower)⟩
    · rw [if_neg hlower]
      by_cases hequal : entry.incarnation = highest.incarnation
      · obtain ⟨hcontrol, hbulk⟩ := hsame highest hhighest hid hequal.symm
        rw [if_pos hequal, if_neg (by simp [hcontrol, hbulk])]
        exact ⟨book, rfl, h.keep hhighest hid (hequal ▸ UInt64.le_refl _)⟩
      · rw [if_neg hequal]
        refine ⟨book.enter entry, rfl, h.enter fun other hother hotherId ↦ ?_⟩
        exact UInt64.le_trans (hbound other hother hotherId) (UInt64.not_lt.mp hlower)

/-- All entries are merged without a conflict when each incarnation of a node has one pair of
endpoints. -/
theorem exists_merged (hstart : start.incarnations = fun _ ↦ none)
    (hsame : ∀ first ∈ entries, ∀ second ∈ entries, SameEndpoints first second) :
    ∃ book, entries.foldlM AddrBook.mergeEntry start = .ok book ∧ Merged start entries book := by
  induction entries using List.reverseRecOn with
  | nil => exact ⟨start, rfl, .nil hstart⟩
  | append_singleton entries entry ih =>
    obtain ⟨book, hbook, hmerged⟩ := ih fun first hfirst second hsecond ↦
      hsame first (by simp [hfirst]) second (by simp [hsecond])
    obtain ⟨after, hafter, hmerged'⟩ := hmerged.mergeEntry fun other hother ↦
      hsame other (by simp [hother]) entry (by simp)
    exact ⟨after, by simp [List.foldlM_append, hbook, hafter], hmerged'⟩

/-- The book depends on which entries were merged only. -/
theorem Merged.unique {others : List NodeDirectoryEntry} {other : AddrBook}
    (h : Merged start entries book) (hother : Merged start others other)
    (hmem : ∀ entry, entry ∈ others ↔ entry ∈ entries)
    (hsame : ∀ first ∈ entries, ∀ second ∈ entries, SameEndpoints first second) :
    other = book := by
  have hpoint (id : NodeId) :
      other.inner id = book.inner id ∧ other.incarnations id = book.incarnations id := by
    by_cases hnew : ∀ entry ∈ entries, entry.nodeId ≠ id
    · obtain ⟨hinner, hincarnation⟩ := h.others id hnew
      obtain ⟨hinner', hincarnation'⟩ :=
        hother.others id fun entry hentry ↦ hnew entry ((hmem entry).mp hentry)
      exact ⟨hinner'.trans hinner.symm, hincarnation'.trans hincarnation.symm⟩
    · push Not at hnew
      obtain ⟨known, hknown, rfl⟩ := hnew
      obtain ⟨top, htop, hid, hbound, hinner, hincarnation⟩ := h.highest known hknown
      obtain ⟨top', htop', hid', hbound', hinner', hincarnation'⟩ :=
        hother.highest known ((hmem known).mpr hknown)
      rw [hmem] at htop'
      have hequal : top'.incarnation = top.incarnation :=
        UInt64.le_antisymm (hbound top' htop' hid') (hbound' top ((hmem top).mpr htop) hid)
      obtain ⟨hcontrol, hbulk⟩ := hsame top' htop' top htop (hid'.trans hid.symm) hequal
      rw [hinner, hinner', hincarnation, hincarnation', hcontrol, hbulk, hequal]
      exact ⟨rfl, rfl⟩
  exact AddrBook.ext (funext fun id ↦ (hpoint id).1) (funext fun id ↦ (hpoint id).2)

/-! ### Snapshots of one run -/

/-- A directory read in the state after some of the entries of a run. -/
def SnapshotOf (prims : Primitives) (identity : Option Identity) (epoch : Option (BitVec 128))
    (log : List Entry) (snapshot : List NodeDirectoryEntry) : Prop :=
  ∃ first results s, first <+: log ∧
    run (Meta.step prims) (emptyStorage identity epoch) first = .ok (results, s) ∧
    MetaStateMachine.directory s = .ok snapshot

variable {epoch : Option (BitVec 128)} {log : List Entry}

/-- Two directories of a run, one read after the other, give one incarnation one pair of
endpoints. -/
theorem sameEndpoints_of_append {first rest : List Entry} {results results' : List MetaApplyResult}
    {s t : Storage} {early late : List NodeDirectoryEntry}
    (hs : run (Meta.step prims) (emptyStorage identity epoch) first = .ok (results, s))
    (ht : run (Meta.step prims) (emptyStorage identity epoch) (first ++ rest) = .ok (results', t))
    (hearly : MetaStateMachine.directory s = .ok early)
    (hlate : MetaStateMachine.directory t = .ok late) {old new : NodeDirectoryEntry}
    (hold : old ∈ early) (hnew : new ∈ late) : SameEndpoints old new := by
  obtain ⟨_, mid, hrun, hidentity, hmid, hfirst⟩ := exists_run prims identity epoch first
  obtain ⟨-, rfl⟩ := Prod.mk.inj (Except.ok.inj (hs.symm.trans hrun))
  obtain ⟨_, last, hrun', -, hlast, hrest⟩ := exists_run_from hmid rest
  rw [run_append hs, hrun'] at ht
  obtain ⟨-, rfl⟩ := Prod.mk.inj (Except.ok.inj ht)
  obtain ⟨_, hdirectory, hlists⟩ := hmid.directory_returns
  obtain rfl := Except.ok.inj (hearly.symm.trans hdirectory)
  obtain ⟨_, hdirectory', hlists'⟩ := hlast.directory_returns
  obtain rfl := Except.ok.inj (hlate.symm.trans hdirectory')
  intro hid hincarnation
  refine endpoints_of_trace hfirst (hidentity ▸ hrest) (hlists.node_of_mem hold) ?_ hincarnation
  rw [hid]
  exact hlists'.node_of_mem hnew

theorem SnapshotOf.sameEndpoints {first second : List NodeDirectoryEntry}
    (hfirst : SnapshotOf prims identity epoch log first)
    (hsecond : SnapshotOf prims identity epoch log second) {entry other : NodeDirectoryEntry}
    (hentry : entry ∈ first) (hother : other ∈ second) : SameEndpoints entry other := by
  obtain ⟨before, _, s, hbefore, hs, hdirectory⟩ := hfirst
  obtain ⟨before', _, t, hbefore', ht, hdirectory'⟩ := hsecond
  obtain ⟨rest, rfl⟩ | ⟨rest, rfl⟩ := List.prefix_or_prefix_of_prefix hbefore hbefore'
  · exact sameEndpoints_of_append hs ht hdirectory hdirectory' hentry hother
  · intro hid hincarnation
    obtain ⟨hcontrol, hbulk⟩ := sameEndpoints_of_append ht hs hdirectory' hdirectory hother hentry
      hid.symm hincarnation.symm
    exact ⟨hcontrol.symm, hbulk.symm⟩

/-- Snapshots are merged one after the other. -/
theorem foldlM_updateDirectory (snapshots : List (List NodeDirectoryEntry)) (book : AddrBook) :
    snapshots.foldlM AddrBook.updateDirectory book =
      snapshots.flatten.foldlM AddrBook.mergeEntry book := by
  induction snapshots generalizing book with
  | nil => rfl
  | cons snapshot snapshots ih =>
    rw [List.flatten_cons, List.foldlM_append, List.foldlM_cons]
    exact congrArg _ (funext ih)

/-- The address book converges. Directories read in any states of one run of the meta group are
merged, in any order and with repetitions, into a book that has no incarnations yet: no merge
reports a conflict, every node of a directory has the endpoints and the incarnation of its entry
with the highest incarnation, any other node is as it was set, and the book is the same for every
other list of the same directories. -/
theorem address_book_converges (prims : Primitives) (identity : Option Identity)
    (epoch : Option (BitVec 128)) (log : List Entry) (snapshots : List (List NodeDirectoryEntry))
    (hsnapshots : ∀ snapshot ∈ snapshots, SnapshotOf prims identity epoch log snapshot)
    (start : AddrBook) (hstart : start.incarnations = fun _ ↦ none) :
    ∃ book, snapshots.foldlM AddrBook.updateDirectory start = .ok book ∧
      (∀ entry ∈ snapshots.flatten, ∃ highest ∈ snapshots.flatten,
        highest.nodeId = entry.nodeId ∧
        (∀ other ∈ snapshots.flatten, other.nodeId = entry.nodeId →
          other.incarnation ≤ highest.incarnation) ∧
        book.inner entry.nodeId = some (highest.controlAddr, highest.bulkAddr) ∧
        book.incarnations entry.nodeId = some highest.incarnation) ∧
      (∀ id, (∀ entry ∈ snapshots.flatten, entry.nodeId ≠ id) →
        book.inner id = start.inner id ∧ book.incarnations id = none) ∧
      ∀ others : List (List NodeDirectoryEntry),
        (∀ snapshot, snapshot ∈ others ↔ snapshot ∈ snapshots) →
        others.foldlM AddrBook.updateDirectory start = .ok book := by
  have hsame (lists : List (List NodeDirectoryEntry))
      (hlists : ∀ snapshot ∈ lists, SnapshotOf prims identity epoch log snapshot) :
      ∀ first ∈ lists.flatten, ∀ second ∈ lists.flatten, SameEndpoints first second := by
    intro first hfirst second hsecond
    obtain ⟨snapshot, hsnapshot, hmem⟩ := List.mem_flatten.mp hfirst
    obtain ⟨snapshot', hsnapshot', hmem'⟩ := List.mem_flatten.mp hsecond
    exact (hlists _ hsnapshot).sameEndpoints (hlists _ hsnapshot') hmem hmem'
  obtain ⟨book, hbook, hmerged⟩ := exists_merged hstart (hsame snapshots hsnapshots)
  rw [← foldlM_updateDirectory] at hbook
  refine ⟨book, hbook, hmerged.highest, hmerged.others, fun others hothers ↦ ?_⟩
  obtain ⟨other, hother, hmerged'⟩ := exists_merged hstart
    (hsame others fun snapshot hsnapshot ↦ hsnapshots _ ((hothers snapshot).mp hsnapshot))
  rw [foldlM_updateDirectory, hother]
  refine congrArg _ (hmerged.unique hmerged' (fun entry ↦ ?_) (hsame snapshots hsnapshots))
  simp only [List.mem_flatten, hothers]

/-- Node 4 moves to other addresses. The snapshot after the move is merged before and after the one
before it, into a book that had the node at a third address. -/
theorem address_book_converges_moved_node :
    let prims : Primitives := ⟨fun _ ↦ Vector.replicate 32 0, id⟩
    let before : List Entry :=
      [(⟨1, 1⟩, .clusterInit ⟨7, PROTOCOL_VERSION, 4, 3, .CANONICAL⟩ [1, 2, 3]),
        (⟨1, 2⟩, .registerNode 4 "a4" "b4")]
    let log : List Entry := before ++ [(⟨1, 3⟩, .registerNode 4 "a5" "b5")]
    let early : List NodeDirectoryEntry := [⟨4, "a4", "b4", .active, 1⟩]
    let late : List NodeDirectoryEntry := [⟨4, "a5", "b5", .active, 2⟩]
    let start := AddrBook.new.set 4 "seed" "bulk"
    SnapshotOf prims (some ⟨7, 1⟩) none log early ∧ SnapshotOf prims (some ⟨7, 1⟩) none log late ∧
      ∃ book, [late, early, late].foldlM AddrBook.updateDirectory start = .ok book ∧
        book.inner 4 = some ("a5", "b5") ∧ book.incarnations 4 = some 2 := by
  intro prims before log early late start
  have hread (first : List Entry) (snapshot : List NodeDirectoryEntry) (hfirst : first <+: log)
      (hdirectory : (run (Meta.step prims) (emptyStorage (some ⟨7, 1⟩) none) first).toOption.bind
        (fun found ↦ (MetaStateMachine.directory found.2).toOption) = some snapshot) :
      SnapshotOf prims (some ⟨7, 1⟩) none log snapshot := by
    obtain ⟨results, s, hrun, -, hwell, -⟩ := exists_run prims (some ⟨7, 1⟩) none first
    obtain ⟨listed, hlisted, -⟩ := hwell.directory_returns
    rw [hrun] at hdirectory
    simp only [Except.toOption, Option.bind_some, hlisted, Option.some.injEq] at hdirectory
    exact ⟨first, results, s, hfirst, hrun, hdirectory ▸ hlisted⟩
  have hearly := hread before early (List.prefix_append _ _) (by decide +kernel)
  have hlate := hread log late (List.prefix_refl _) (by decide +kernel)
  obtain ⟨book, hbook, hhighest, -, -⟩ := address_book_converges prims (some ⟨7, 1⟩) none log
    [late, early, late] (by simpa only [List.forall_mem_cons, List.not_mem_nil, false_imp_iff,
      forall_const, and_true] using ⟨hlate, hearly, hlate⟩) start rfl
  obtain ⟨highest, hmem, -, hbound, hinner, hincarnation⟩ :=
    hhighest ⟨4, "a5", "b5", .active, 2⟩ (by simp [late])
  have htop : highest = ⟨4, "a5", "b5", .active, 2⟩ := by
    have hle := hbound ⟨4, "a5", "b5", .active, 2⟩ (by simp [late]) rfl
    simp only [late, early, List.flatten_cons, List.flatten_nil, List.append_nil,
      List.singleton_append, List.mem_cons, List.not_mem_nil, or_false] at hmem
    obtain rfl | rfl | rfl := hmem
    · rfl
    · exact absurd hle (by decide)
    · rfl
  subst htop
  exact ⟨hearly, hlate, book, hbook, hinner, hincarnation⟩

end DalService.Transport
