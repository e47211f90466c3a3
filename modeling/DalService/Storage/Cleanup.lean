import DalService.Storage.Disk

/-!
# The names of state column families, and cleaning them up

`cleanup_snapshot_cfs` runs when the database is opened. It drops every state column family that is
not in use, and finishes a reclaim that a crash cut off between dropping the column families of a
group and deleting its pointer record.

The source decides by names. The name of a state column family determines the group and the
generation (`stateCf_inj`), and the tests on names come out as the test on generations: a family is
dropped exactly when it is not the one its own group uses (`dropsName_iff`), whatever the tokens of
the groups are. What is left after the pass is the state in use and no other state column family
(`activeState_cleanupSnapshotCfs`, `state_cleanupSnapshotCfs_of_ne`).
-/

set_option autoImplicit false

namespace DalService.Storage

open Foundation Keyspace DalService.Partition

/-! ### Names -/

def snapshotMark : String := "__snapshot_"

/-- The name of a state column family: `cf_state`, and for a generation its number. -/
def stateCf (group : GroupId) : Option UInt64 → String
  | none => "cf_state_" ++ group.token
  | some generation => "cf_state_" ++ group.token ++ snapshotMark ++ toString generation.toNat

/-- The name of the log column family. -/
def logCf (group : GroupId) : String := "cf_log_" ++ group.token

theorem isDigit_of_mem_toString {n : ℕ} {c : Char} (h : c ∈ (toString n).toList) : c.isDigit := by
  refine Nat.isDigit_of_mem_toDigits (b := 10) (n := n) (by decide) (by decide) ?_
  simpa [toString, Nat.repr] using h

/-- Digits end where no digit follows. -/
theorem digits_append_inj {first second rest rest' : List Char} (hfirst : ∀ c ∈ first, c.isDigit)
    (hsecond : ∀ c ∈ second, c.isDigit) (hrest : ∀ c ∈ rest.head?, ¬c.isDigit)
    (hrest' : ∀ c ∈ rest'.head?, ¬c.isDigit) (h : first ++ rest = second ++ rest') :
    first = second ∧ rest = rest' := by
  induction first generalizing second with
  | nil =>
    cases second with
    | nil => exact ⟨rfl, h⟩
    | cons c second =>
      rw [List.nil_append, List.cons_append] at h
      exact absurd (hsecond c (List.mem_cons_self ..)) (hrest c (by simp [h]))
  | cons c first ih =>
    cases second with
    | nil =>
      rw [List.nil_append, List.cons_append] at h
      exact absurd (hfirst c (List.mem_cons_self ..)) (hrest' c (by simp [← h]))
    | cons c' second =>
      obtain ⟨rfl, htail⟩ := List.cons.inj h
      obtain ⟨rfl, hsame⟩ := ih (fun c hc ↦ hfirst c (List.mem_cons_of_mem _ hc))
        (fun c hc ↦ hsecond c (List.mem_cons_of_mem _ hc)) htail
      exact ⟨rfl, hsame⟩

/-- A token ends where no digit follows. -/
theorem token_append_inj {first second : GroupId} {rest rest' : List Char}
    (hrest : ∀ c ∈ rest.head?, ¬c.isDigit) (hrest' : ∀ c ∈ rest'.head?, ¬c.isDigit)
    (h : first.token.toList ++ rest = second.token.toList ++ rest') :
    first = second ∧ rest = rest' := by
  cases first with
  | «meta» =>
    cases second with
    | «meta» => exact ⟨rfl, List.append_cancel_left h⟩
    | data partition => simp [GroupId.token] at h
  | data partition =>
    cases second with
    | «meta» => simp [GroupId.token] at h
    | data other =>
      simp only [GroupId.token, String.toList_append, List.append_assoc] at h
      obtain ⟨hdigits, hsame⟩ := digits_append_inj (fun _ ↦ isDigit_of_mem_toString)
        (fun _ ↦ isDigit_of_mem_toString) hrest hrest' (List.append_cancel_left h)
      have hnat := Nat.repr_injective (String.toList_inj.mp hdigits)
      exact ⟨by rw [UInt16.toNat_inj.mp hnat], hsame⟩

/-- What follows the group's token in the name of a state column family. -/
def stateCfSuffix : Option UInt64 → List Char
  | none => []
  | some generation => snapshotMark.toList ++ (toString generation.toNat).toList

theorem toList_stateCf (group : GroupId) (generation : Option UInt64) :
    (stateCf group generation).toList =
      "cf_state_".toList ++ (group.token.toList ++ stateCfSuffix generation) := by
  cases generation <;> simp [stateCf, stateCfSuffix]

theorem not_isDigit_head_stateCfSuffix (generation : Option UInt64) :
    ∀ c ∈ (stateCfSuffix generation).head?, ¬c.isDigit := by
  cases generation <;> simp [stateCfSuffix, snapshotMark]

theorem stateCfSuffix_injective : Function.Injective stateCfSuffix := by
  rintro (_ | first) (_ | second) h
  · rfl
  · simp [stateCfSuffix, snapshotMark] at h
  · simp [stateCfSuffix, snapshotMark] at h
  · have hnat := Nat.repr_injective (String.toList_inj.mp (List.append_cancel_left h))
    rw [UInt64.toNat_inj.mp hnat]

variable {generation : Option UInt64}

/-- The name of a state column family determines the group and the generation. -/
theorem stateCf_inj {group other : GroupId} {generation' : Option UInt64} :
    stateCf group generation = stateCf other generation' ↔
      group = other ∧ generation = generation' := by
  constructor
  · intro h
    have hlists := congrArg String.toList h
    rw [toList_stateCf, toList_stateCf] at hlists
    obtain ⟨hgroup, hsuffix⟩ := token_append_inj (not_isDigit_head_stateCfSuffix _)
      (not_isDigit_head_stateCfSuffix _) (List.append_cancel_left hlists)
    exact ⟨hgroup, stateCfSuffix_injective hsuffix⟩
  · rintro ⟨rfl, rfl⟩
    rfl

/-- A name that starts as the snapshot generations of a group do is one of them. -/
theorem isPrefix_stateCf_iff {group other : GroupId} :
    (stateCf group none ++ snapshotMark).toList <+: (stateCf other generation).toList ↔
      group = other ∧ generation.isSome := by
  have hempty : stateCfSuffix none = [] := rfl
  rw [String.toList_append, toList_stateCf, toList_stateCf, hempty, List.append_nil,
    List.append_assoc]
  constructor
  · rintro ⟨rest, h⟩
    rw [List.append_assoc, List.append_assoc] at h
    obtain ⟨hgroup, hsuffix⟩ := token_append_inj (by simp [snapshotMark])
      (not_isDigit_head_stateCfSuffix _) (List.append_cancel_left h)
    refine ⟨hgroup, ?_⟩
    cases generation with
    | none => simp [stateCfSuffix, snapshotMark] at hsuffix
    | some generation => rfl
  · rintro ⟨rfl, hsome⟩
    obtain ⟨generation, rfl⟩ := Option.isSome_iff_exists.mp hsome
    exact ⟨(toString generation.toNat).toList, by simp [stateCfSuffix]⟩

/-- Neither a base family nor a log has the mark of a snapshot generation in its name. -/
theorem not_mem_token (group : GroupId) : 'h' ∉ group.token.toList := by
  cases group with
  | «meta» => simp [GroupId.token]
  | data partition =>
    have hdigits : 'h' ∉ (toString partition.toNat).toList := fun h ↦
      absurd (isDigit_of_mem_toString h) (by decide)
    simpa [GroupId.token] using hdigits

theorem isInfix_stateCf_iff {group : GroupId} :
    snapshotMark.toList <:+: (stateCf group generation).toList ↔ generation.isSome := by
  constructor
  · intro h
    cases generation with
    | some generation => rfl
    | none =>
      have hmem : 'h' ∈ (stateCf group none).toList := h.subset (by decide)
      rw [toList_stateCf] at hmem
      simp [stateCfSuffix, not_mem_token] at hmem
  · intro hsome
    obtain ⟨generation, rfl⟩ := Option.isSome_iff_exists.mp hsome
    refine ⟨"cf_state_".toList ++ group.token.toList, (toString generation.toNat).toList, ?_⟩
    rw [toList_stateCf, stateCfSuffix]
    simp only [List.append_assoc]

/-! ### The tests on names -/

/-- The test `cleanup_snapshot_cfs` makes of a name, where `active` gives for each group the
generation its pointer record names, if that family exists. -/
def DropsName (active : GroupId → Option UInt64) (name : String) : Prop :=
  (snapshotMark.toList <:+: name.toList ∧
    ∀ group generation, active group = some generation → name ≠ stateCf group (some generation)) ∨
  ∃ group generation, active group = some generation ∧ name ≠ stateCf group (some generation) ∧
    (name = stateCf group none ∨ (stateCf group none ++ snapshotMark).toList <+: name.toList)

/-- A state column family is dropped exactly when it is not the one its group uses. -/
theorem dropsName_iff {active : GroupId → Option UInt64} {group : GroupId} :
    DropsName active (stateCf group generation) ↔ generation ≠ active group := by
  constructor
  · rintro (⟨hmark, hunused⟩ | ⟨other, used, hused, hother, hname | hname⟩) rfl
    · obtain ⟨used, hused⟩ := Option.isSome_iff_exists.mp (isInfix_stateCf_iff.mp hmark)
      exact hunused group used hused (by rw [hused])
    · obtain ⟨rfl, hnone⟩ := stateCf_inj.mp hname
      rw [hused] at hnone
      cases hnone
    · obtain ⟨rfl, -⟩ := isPrefix_stateCf_iff.mp hname
      exact hother (by rw [hused])
  · intro hunused
    cases hactive : active group with
    | some used =>
      refine .inr ⟨group, used, hactive, fun h ↦ hunused ?_, ?_⟩
      · rw [hactive, (stateCf_inj.mp h).2]
      · cases generation with
        | none => exact .inl rfl
        | some generation => exact .inr (isPrefix_stateCf_iff.mpr ⟨rfl, rfl⟩)
    | none =>
      have hsome : generation.isSome :=
        Option.isSome_iff_ne_none.mpr fun h ↦ hunused (h.trans hactive.symm)
      refine .inl ⟨isInfix_stateCf_iff.mpr hsome, fun other used hused hname ↦ ?_⟩
      obtain ⟨rfl, -⟩ := stateCf_inj.mp hname
      rw [hactive] at hused
      cases hused

/-- The log column families are kept. -/
theorem not_dropsName_logCf {active : GroupId → Option UInt64} {group : GroupId} :
    ¬DropsName active (logCf group) := by
  have hhead : ∀ other generation, logCf group ≠ stateCf other generation := by
    intro other generation h
    have hlists := congrArg String.toList h
    rw [toList_stateCf, logCf] at hlists
    simp at hlists
  rintro (⟨hmark, -⟩ | ⟨other, used, -, -, hname | ⟨rest, hname⟩⟩)
  · have hmem : 'h' ∈ (logCf group).toList := hmark.subset (by decide)
    simp [logCf, not_mem_token] at hmem
  · exact hhead _ _ hname
  · rw [String.toList_append, toList_stateCf, logCf] at hname
    simp at hname

/-! ### The pass -/

variable {V P : Type}

namespace GroupDisk

/-- The generation the pointer record names, if that family exists. -/
def activeGeneration (d : GroupDisk V P) : Option UInt64 :=
  d.pointer.filter fun generation ↦ (d.state (some generation)).isSome

/-- `cleanup_snapshot_cfs`, for one group. -/
def cleanupSnapshotCfs (group : GroupId) (d : GroupDisk V P) : GroupDisk V P :=
  let swept := { d with
    state := fun generation ↦ if generation = d.activeGeneration then d.state generation else none }
  if d.pointer = d.activeGeneration then swept
  else
    -- The pointer names a missing family, so a reclaim stopped after dropping the families.
    let dropped := { swept with log := none, state := fun _ ↦ none, pointer := none }
    match group with
    | .meta => dropped
    | .data _ => { dropped with searchEpoch := none, consumers := ∅, outbox := ∅ }

variable {d : GroupDisk V P} {group : GroupId}

theorem activeGeneration_eq_pointer (h : d.activeState.isSome) :
    d.activeGeneration = d.pointer := by
  rw [activeGeneration]
  cases hpointer : d.pointer with
  | none => rfl
  | some generation =>
    rw [activeState, hpointer] at h
    simp [h]

/-- Where the state in use exists the pass drops the other families and nothing else. -/
theorem cleanupSnapshotCfs_of_isSome (h : d.activeState.isSome) :
    d.cleanupSnapshotCfs group =
      { d with
        state := fun generation ↦
          if generation = d.pointer then d.state generation else none } := by
  simp only [cleanupSnapshotCfs, activeGeneration_eq_pointer h, if_true]

theorem activeState_cleanupSnapshotCfs (h : d.activeState.isSome) :
    (d.cleanupSnapshotCfs group).activeState = d.activeState := by
  rw [cleanupSnapshotCfs_of_isSome h]
  simp [activeState]

/-- No family but the one in use is left. -/
theorem state_cleanupSnapshotCfs_of_ne (h : generation ≠ (d.cleanupSnapshotCfs group).pointer) :
    (d.cleanupSnapshotCfs group).state generation = none := by
  rw [cleanupSnapshotCfs] at h ⊢
  dsimp only at h ⊢
  split_ifs at h ⊢ with hactive
  · exact if_neg fun hsame ↦ h (hsame.trans hactive.symm)
  · cases group <;> rfl

end GroupDisk

/-- `cleanup_snapshot_cfs`, for every group of the node. -/
def Disk.cleanupSnapshotCfs (d : Disk V P) : Disk V P :=
  { d with group := fun group ↦ (d.group group).cleanupSnapshotCfs group }

/-- The tests on names make the pass. No log is dropped by its name; of a group whose reclaim was
not interrupted exactly the families whose names pass the test are gone, and the others are as they
were, the state in use among them. -/
theorem cleanup_drops_unused (d : Disk V P) :
    let active (group : GroupId) := (d.group group).activeGeneration
    ∀ group, ¬DropsName active (logCf group) ∧ ((d.group group).pointer = active group →
      (d.cleanupSnapshotCfs.group group).log = (d.group group).log ∧
      (d.cleanupSnapshotCfs.group group).activeState = (d.group group).activeState ∧
      ∀ generation,
        (DropsName active (stateCf group generation) →
          (d.cleanupSnapshotCfs.group group).state generation = none) ∧
        (¬DropsName active (stateCf group generation) →
          (d.cleanupSnapshotCfs.group group).state generation =
            (d.group group).state generation)) := by
  intro active group
  refine ⟨not_dropsName_logCf, fun hactive ↦ ?_⟩
  have hswept : d.cleanupSnapshotCfs.group group = { d.group group with
      state := fun generation ↦
        if generation = active group then (d.group group).state generation else none } :=
    if_pos hactive
  rw [hswept]
  refine ⟨rfl, if_pos hactive, fun generation ↦ ⟨fun hdropped ↦ ?_, fun hkept ↦ ?_⟩⟩
  · exact if_neg (dropsName_iff.mp hdropped)
  · exact if_pos (not_not.mp fun hunused ↦ hkept (dropsName_iff.mpr hunused))

end DalService.Storage
