import DalService.Types

/-!
# The register checker

`linearize` searches for one sequential order of the operations on a key that respects real time and
is legal for a register with versions. The search backtracks over the operations not yet placed, and
places next only one that was called no later than the earliest return among them.

The search is complete: an order that is legal (`Legal`) of the same operations, in whatever order
the history lists them, makes it return an order (`linearize_isSome`). It is sound: what it places
respects real time and is taken by the register, because an operation is placed before every one
that is still unplaced (`Placed`, `placed_of_search`). `linearize_iff` puts the two together over
the positions of the operations in the history.
-/

set_option autoImplicit false

namespace DalService.Verify

open Foundation

/-- A client-issued operation on one key. -/
inductive Invocation
  | read
  | put (value : Bytes) (ifVersion : Option IfVersion)
  deriving DecidableEq, Repr

/-- The observed response. -/
inductive Outcome
  | applied (version : UInt64)
  | conditionFailed (present : Option UInt64)
  | value (value : Option (UInt64 × Bytes))
  deriving DecidableEq, Repr

/-- One completed operation with its real-time interval. -/
structure Op where
  call : UInt64
  ret : UInt64
  inv : Invocation
  out : Outcome
  deriving DecidableEq, Repr

/-- The register: the last committed version and value. -/
abbrev State := Option (UInt64 × Bytes)

def versionOf (state : State) : UInt64 := (state.map Prod.fst).getD 0

/-- The register after an operation, if the recorded outcome is the one it has at this point. -/
def apply (state : State) (op : Op) : Option State :=
  match op.inv, op.out with
  | .read, .value value => if value = state then some state else none
  | .put value none, .applied version =>
    if versionOf state < version then some (some (version, value)) else none
  | .put value (some .absent), out =>
    match state, out with
    | none, .applied version => if 0 < version then some (some (version, value)) else none
    | some (current, _), .conditionFailed (some present) =>
      if present = current then some state else none
    | _, _ => none
  | .put value (some (.number expected)), out =>
    match state, out with
    | some (current, _), .applied version =>
      if current = expected ∧ current < version then some (some (version, value)) else none
    | some (current, _), .conditionFailed (some present) =>
      if present = current ∧ current ≠ expected then some state else none
    | none, .conditionFailed none => some state
    | _, _ => none
  | _, _ => none

/-- The operations not yet placed. -/
def unused (ops : List Op) (used : List Bool) : List Op :=
  ((ops.zip used).filter fun placed ↦ !placed.2).map Prod.fst

/-- The earliest return time among the operations not yet placed. -/
def minRet (ops : List Op) (used : List Bool) : Option UInt64 := ((unused ops used).map Op.ret).min?

/-- Place the remaining operations after those in `order`, or fail. -/
def search (ops : List Op) : ℕ → List Bool → State → List ℕ → Option (List ℕ)
  | 0, _, _, order => some order
  | remaining + 1, used, state, order =>
    match minRet ops used with
    -- The source unwraps the minimum: with an operation remaining there is one (`minRet_eq_some`).
    | none => none
    | some earliest =>
      (List.range ops.length).findSome? fun i ↦
        match ops[i]?, used[i]? with
        | some op, some false =>
          if earliest < op.call then none
          else (apply state op).bind fun next ↦
            search ops remaining (used.set i true) next (order ++ [i])
        | _, _ => none

def linearize (ops : List Op) : Option (List ℕ) :=
  search ops ops.length (List.replicate ops.length false) none []

/-! ### What is not yet placed -/

theorem unused_replicate (ops : List Op) : unused ops (List.replicate ops.length false) = ops := by
  induction ops with
  | nil => rfl
  | cons op rest ih =>
    rw [unused] at ih ⊢
    simpa [List.replicate_succ] using ih

variable {ops : List Op} {used : List Bool}

theorem exists_of_mem_unused {op : Op} (h : op ∈ unused ops used) :
    ∃ i : ℕ, ops[i]? = some op ∧ used[i]? = some false := by
  rw [unused, List.mem_map] at h
  obtain ⟨⟨op, placed⟩, hmem, rfl⟩ := h
  rw [List.mem_filter, List.mem_iff_getElem?] at hmem
  obtain ⟨⟨i, hi⟩, hplaced⟩ := hmem
  obtain ⟨hop, hused⟩ := List.getElem?_zip_eq_some.mp hi
  cases placed with
  | true => cases hplaced
  | false => exact ⟨i, hop, hused⟩

/-- Placing an operation takes it from those not yet placed. -/
theorem unused_perm_set {i : ℕ} {op : Op} (hop : ops[i]? = some op)
    (hused : used[i]? = some false) :
    (unused ops used).Perm (op :: unused ops (used.set i true)) := by
  induction ops generalizing used i with
  | nil => cases hop
  | cons first rest ih =>
    cases used with
    | nil => cases hused
    | cons placed others =>
      cases i with
      | zero =>
        cases hop
        cases hused
        exact .refl _
      | succ i =>
        have hrest : (unused rest others).Perm (op :: unused rest (others.set i true)) :=
          ih hop hused
        cases placed with
        | true => exact hrest
        | false => exact (hrest.cons first).trans (.swap op first _)

/-- While something is not yet placed there is an earliest return, and it is one of theirs. -/
theorem minRet_eq_some {op : Op} (h : op ∈ unused ops used) :
    ∃ other ∈ unused ops used, minRet ops used = some other.ret := by
  cases hmin : minRet ops used with
  | none =>
    rw [minRet, List.min?_eq_none_iff, List.map_eq_nil_iff] at hmin
    rw [hmin] at h
    cases h
  | some earliest =>
    have hmem : earliest ∈ (unused ops used).map Op.ret := List.min?_mem hmin
    obtain ⟨other, hother, rfl⟩ := List.mem_map.mp hmem
    exact ⟨other, hother, rfl⟩

/-! ### Completeness -/

/-- A sequential order of operations: each was called before any that it precedes returned, and the
register takes them one after the other. -/
structure Legal (state : State) (order : List Op) : Prop where
  self : ∀ op ∈ order, op.call ≤ op.ret
  realTime : order.Pairwise fun op other ↦ op.call ≤ other.ret
  taken : (order.foldlM apply state).isSome

theorem Legal.call_le {state : State} {op : Op} {rest : List Op} (h : Legal state (op :: rest))
    {other : Op} (hother : other ∈ op :: rest) : op.call ≤ other.ret := by
  rcases List.mem_cons.mp hother with rfl | hother
  · exact h.self _ List.mem_cons_self
  · exact (List.pairwise_cons.mp h.realTime).1 other hother

theorem Legal.tail {state : State} {op : Op} {rest : List Op} (h : Legal state (op :: rest)) :
    ∃ next, apply state op = some next ∧ Legal next rest := by
  obtain ⟨last, hlast⟩ := Option.isSome_iff_exists.mp h.taken
  rw [List.foldlM_cons] at hlast
  obtain ⟨next, hnext, hrest⟩ := Option.bind_eq_some_iff.mp hlast
  exact ⟨next, hnext, fun other hother ↦ h.self other (List.mem_cons_of_mem op hother),
    (List.pairwise_cons.mp h.realTime).2, by rw [hrest]; rfl⟩

/-- Assumes: a legal order of the operations not yet placed. The search finds an order. -/
theorem search_isSome {order : List Op} {state : State}
    (hperm : order.Perm (unused ops used)) (hlegal : Legal state order) (placed : List ℕ) :
    (search ops order.length used state placed).isSome := by
  induction order generalizing used state placed with
  | nil => rfl
  | cons op rest ih =>
    have hop : op ∈ unused ops used := hperm.subset List.mem_cons_self
    obtain ⟨other, hother, hmin⟩ := minRet_eq_some hop
    obtain ⟨i, hi, hused⟩ := exists_of_mem_unused hop
    obtain ⟨next, hnext, hrest⟩ := hlegal.tail
    have hcall : ¬other.ret < op.call :=
      UInt64.not_lt.mpr (hlegal.call_le (hperm.symm.subset hother))
    have hfound := ih (hperm.trans (unused_perm_set hi hused)).cons_inv hrest (placed ++ [i])
    simp only [List.length_cons, search, hmin, List.findSome?_isSome_iff]
    refine ⟨i, List.mem_range.mpr (List.getElem?_eq_some_iff.mp hi).1, ?_⟩
    simp only [hi, hused, if_neg hcall, hnext, Option.bind_some]
    exact hfound

/-- A history that has a legal order is accepted, in whatever order it lists the operations. -/
theorem linearize_isSome {order : List Op} (hperm : order.Perm ops) (hlegal : Legal none order) :
    (linearize ops).isSome := by
  rw [linearize, ← hperm.length_eq]
  refine search_isSome ?_ hlegal []
  rw [hperm.length_eq, unused_replicate]
  exact hperm

/-! ### Soundness -/

theorem mem_unused {i : ℕ} {op : Op} (hop : ops[i]? = some op)
    (hused : used[i]? = some false) : op ∈ unused ops used :=
  (unused_perm_set hop hused).symm.subset List.mem_cons_self

/-- The operation at the first position was called before the one at the second returned. -/
def Reaches (ops : List Op) (i j : ℕ) : Prop :=
  ∀ op other, ops[i]? = some op → ops[j]? = some other → op.call ≤ other.ret

/-- The operations at some positions. -/
def chosen (ops : List Op) (order : List ℕ) : List Op := order.filterMap fun i ↦ ops[i]?

/-- Positions not yet used, placed one after the other. -/
structure Placed (ops : List Op) (used : List Bool) (state : State) (order : List ℕ) : Prop where
  unplaced : ∀ i ∈ order, used[i]? = some false ∧ i < ops.length
  nodup : order.Nodup
  realTime : order.Pairwise (Reaches ops)
  taken : ((chosen ops order).foldlM apply state).isSome

/-- Assumes: an operation that is not yet placed and was called before every such one returned. It
goes before what is placed without it. -/
theorem Placed.cons {state next : State} {order : List ℕ} {i : ℕ}
    {op : Op} (h : Placed ops (used.set i true) next order) (hop : ops[i]? = some op)
    (hused : used[i]? = some false) (hcall : ∀ other ∈ unused ops used, op.call ≤ other.ret)
    (hnext : apply state op = some next) : Placed ops used state (i :: order) := by
  have hlater : ∀ j ∈ order, j ≠ i ∧ used[j]? = some false := by
    intro j hj
    have hset := (h.unplaced j hj).1
    rw [List.getElem?_set] at hset
    split_ifs at hset with hji hlength
    · exact absurd (Option.some.inj hset) (by decide)
    · exact ⟨Ne.symm hji, hset⟩
  constructor
  · intro j hj
    rcases List.mem_cons.mp hj with rfl | hj
    · exact ⟨hused, (List.getElem?_eq_some_iff.mp hop).1⟩
    · exact ⟨(hlater j hj).2, (h.unplaced j hj).2⟩
  · exact List.nodup_cons.mpr ⟨fun hmem ↦ (hlater i hmem).1 rfl, h.nodup⟩
  · refine List.pairwise_cons.mpr ⟨fun j hj first second hfirst hsecond ↦ ?_, h.realTime⟩
    obtain rfl := Option.some.inj (hop.symm.trans hfirst)
    exact hcall second (mem_unused hsecond (hlater j hj).2)
  · have hchosen : chosen ops (i :: order) = op :: chosen ops order := List.filterMap_cons_some hop
    rw [hchosen, List.foldlM_cons, hnext]
    exact h.taken

/-- What a search places follows what was placed before it. -/
theorem placed_of_search {remaining : ℕ} {state : State}
    {before result : List ℕ} (h : search ops remaining used state before = some result) :
    ∃ order, result = before ++ order ∧ order.length = remaining ∧ Placed ops used state order := by
  induction remaining generalizing used state before with
  | zero =>
    cases h
    exact ⟨[], (List.append_nil _).symm, rfl, ⟨by simp, List.nodup_nil, List.Pairwise.nil, rfl⟩⟩
  | succ remaining ih =>
    rw [search] at h
    cases hmin : minRet ops used with
    | none =>
      rw [hmin] at h
      cases h
    | some earliest =>
      rw [hmin] at h
      obtain ⟨i, -, hplaced⟩ := List.exists_of_findSome?_eq_some h
      cases hop : ops[i]? with
      | none => simp [hop] at hplaced
      | some op =>
        cases hused : used[i]? with
        | none => simp [hop, hused] at hplaced
        | some flag =>
          cases flag with
          | true => simp [hop, hused] at hplaced
          | false =>
            simp only [hop, hused] at hplaced
            split_ifs at hplaced with hcall
            obtain ⟨next, hnext, hrest⟩ := Option.bind_eq_some_iff.mp hplaced
            obtain ⟨order, hresult, hlength, horder⟩ := ih hrest
            refine ⟨i :: order, by rw [hresult, List.append_assoc]; rfl,
              by rw [List.length_cons, hlength],
              horder.cons hop hused (fun other hother ↦ ?_) hnext⟩
            have hearliest : earliest ≤ other.ret :=
              (List.min?_eq_some_iff.mp hmin).2 _ (List.mem_map.mpr ⟨other, hother, rfl⟩)
            exact UInt64.le_trans (UInt64.not_lt.mp hcall) hearliest

/-! ### Linearizations -/

/-- A sequential order of the operations, by their positions in the history: each position once, an
operation that returned before another was called comes before it, and the register takes them one
after the other. -/
structure Linearization (ops : List Op) (order : List ℕ) : Prop where
  perm : order.Perm (List.range ops.length)
  realTime : ∀ (i j : ℕ) (op other : Op), ops[i]? = some op → ops[j]? = some other →
    op.ret < other.call → order.idxOf i < order.idxOf j
  taken : ((chosen ops order).foldlM apply none).isSome

theorem chosen_range (ops : List Op) : chosen ops (List.range ops.length) = ops := by
  induction ops with
  | nil => rfl
  | cons op rest ih =>
    rw [chosen] at ih
    rw [chosen, List.length_cons, List.range_succ_eq_map,
      List.filterMap_cons_some (List.getElem?_cons_zero), List.filterMap_map]
    simpa only [Function.comp_def, List.getElem?_cons_succ] using congrArg (op :: ·) ih

/-- What the search places of a whole history is a linearization of it. -/
theorem Placed.linearization {order : List ℕ}
    (h : Placed ops used none order) (hlength : order.length = ops.length)
    (hinterval : ∀ op ∈ ops, op.call ≤ op.ret) : Linearization ops order := by
  have hperm : order.Perm (List.range ops.length) := by
    refine (h.nodup.subperm fun i hi ↦ List.mem_range.mpr (h.unplaced i hi).2).perm_of_length_le ?_
    rw [List.length_range, hlength]
  have hmem : ∀ {i : ℕ} {op : Op}, ops[i]? = some op → i ∈ order := fun hop ↦
    hperm.symm.subset (List.mem_range.mpr (List.getElem?_eq_some_iff.mp hop).1)
  refine ⟨hperm, fun i j op other hop hother hreturned ↦ ?_, h.taken⟩
  by_contra hle
  rcases Nat.lt_or_eq_of_le (Nat.le_of_not_lt hle) with hlt | heq
  · have hreaches := List.pairwise_iff_getElem.mp h.realTime _ _
      (List.idxOf_lt_length_of_mem (hmem hother)) (List.idxOf_lt_length_of_mem (hmem hop)) hlt
    rw [List.getElem_idxOf, List.getElem_idxOf] at hreaches
    exact UInt64.lt_irrefl _ (UInt64.lt_of_lt_of_le hreturned (hreaches other op hother hop))
  · obtain rfl : j = i := (List.idxOf_inj (hmem hother)).mp heq
    obtain rfl := Option.some.inj (hop.symm.trans hother)
    exact UInt64.lt_irrefl _ (UInt64.lt_of_lt_of_le hreturned
      (hinterval op (List.mem_of_getElem? hop)))

/-- A linearization is a legal order of the operations. -/
theorem Linearization.legal {order : List ℕ} (h : Linearization ops order)
    (hinterval : ∀ op ∈ ops, op.call ≤ op.ret) :
    (chosen ops order).Perm ops ∧ Legal none (chosen ops order) := by
  have hperm : (chosen ops order).Perm ops := by
    have hchosen := h.perm.filterMap fun i ↦ ops[i]?
    rwa [← chosen, ← chosen, chosen_range] at hchosen
  have hnodup : order.Nodup := h.perm.nodup_iff.mpr List.nodup_range
  have hreaches : order.Pairwise (Reaches ops) := by
    refine List.pairwise_iff_getElem.mpr fun a b ha hb hlt op other hop hother ↦ ?_
    by_contra hcalled
    have hbefore := h.realTime _ _ other op hother hop (UInt64.not_le.mp hcalled)
    rw [hnodup.idxOf_getElem, hnodup.idxOf_getElem] at hbefore
    exact absurd hbefore (Nat.lt_asymm hlt)
  refine ⟨hperm, fun op hop ↦ hinterval op (hperm.subset hop), ?_, h.taken⟩
  exact hreaches.filterMap _ fun i j hij op hop other hother ↦ hij op other hop hother

/-- Assumes: no operation returned before it was called. The checker returns an order exactly when
the history has a linearization, and the order is one. -/
theorem linearize_iff (hinterval : ∀ op ∈ ops, op.call ≤ op.ret) :
    ((linearize ops).isSome ↔ ∃ order, Linearization ops order) ∧
      ∀ order, linearize ops = some order → Linearization ops order := by
  have hsound : ∀ order, linearize ops = some order → Linearization ops order := by
    intro order horder
    obtain ⟨placed, hresult, hlength, hplaced⟩ := placed_of_search horder
    rw [hresult, List.nil_append]
    exact hplaced.linearization hlength hinterval
  refine ⟨⟨fun hsome ↦ ?_, fun ⟨order, horder⟩ ↦ ?_⟩, hsound⟩
  · obtain ⟨order, horder⟩ := Option.isSome_iff_exists.mp hsome
    exact ⟨order, hsound order horder⟩
  · obtain ⟨hperm, hlegal⟩ := horder.legal hinterval
    exact linearize_isSome hperm hlegal

/-- A read that overlaps a put and sees it, listed before the put. -/
def readBesidePut : List Op :=
  [⟨1, 3, .read, .value (some (10, [97]))⟩, ⟨0, 2, .put [97] none, .applied 10⟩]

theorem linearize_iff_readBesidePut :
    linearize readBesidePut = some [1, 0] ∧ Linearization readBesidePut [1, 0] := by
  have horder : linearize readBesidePut = some [1, 0] := by decide
  exact ⟨horder, (linearize_iff (by decide)).2 [1, 0] horder⟩

end DalService.Verify
