import DalService.Foundation.ColumnFamily

/-!
# Runs of a fallible step

A component takes one input after another: each step answers and moves the state, or fails. `run`
applies a step to a list of inputs and collects the answers. A run over two lists one after the
other is the run over the first, then over the second (`run_append`), and a run that ended is cut
anywhere into two runs (`run_split`).

The rule of invariants is `run_of_invariant`: a property of the inputs taken, the answers given and
the state, which holds before the first step and which every step keeps without failing, holds at
the end of the run, and the run does not fail. For a system given by a relation between states the
rule is `invariant_of_reachable`.

A relation labelled with inputs has traces (`Trace`). A component whose steps never fail and are
steps of an abstract relation simulates it: each of its runs ends and is a trace of the relation
(`exists_run_trace`; with its answers, `exists_run_answered`). Facts about traces are proved from
their last step (`Trace.invariant`), and a fact that each step keeps is kept by a trace
(`Trace.stable`).
-/

set_option autoImplicit false

namespace DalService.Foundation

variable {S I O E : Type}

/-- Apply a step to each input in turn, collecting the answers. -/
def run (step : S → I → Except E (O × S)) : S → List I → Except E (List O × S)
  | s, [] => .ok ([], s)
  | s, i :: rest => do
    let (out, next) ← step s i
    let (outs, last) ← run step next rest
    return (out :: outs, last)

variable {step : S → I → Except E (O × S)}

@[simp] theorem run_nil (s : S) : run step s [] = .ok ([], s) := rfl

theorem run_cons_of_ok {s next : S} {i : I} {out : O} (hstep : step s i = .ok (out, next))
    (rest : List I) :
    run step s (i :: rest) = (run step next rest).map fun result ↦ (out :: result.1, result.2) := by
  rw [run, hstep]
  cases hrest : run step next rest <;>
    simp [bind, Except.bind, pure, Except.pure, Except.map, hrest]

/-- Assumes: the run over the first inputs ends. The run goes on from there. -/
theorem run_append {s mid : S} {first : List I} {outs : List O}
    (hfirst : run step s first = .ok (outs, mid)) (second : List I) :
    run step s (first ++ second) =
      (run step mid second).map fun result ↦ (outs ++ result.1, result.2) := by
  induction first generalizing s outs with
  | nil =>
    cases hfirst
    cases hsecond : run step mid second <;> simp [Except.map, hsecond]
  | cons i first ih =>
    cases hstep : step s i with
    | error e => simp [run, hstep, bind, Except.bind] at hfirst
    | ok answer =>
      obtain ⟨out, next⟩ := answer
      rw [run_cons_of_ok hstep] at hfirst
      rw [List.cons_append, run_cons_of_ok hstep]
      cases hrest : run step next first with
      | error e => simp [hrest, Except.map] at hfirst
      | ok result =>
        obtain ⟨tail, last⟩ := result
        rw [hrest] at hfirst
        cases hfirst
        rw [ih hrest]
        cases run step last second <;> rfl

/-- Assumes: the run over the first inputs ends, and the step after it succeeds. -/
theorem run_concat {s mid next : S} {inputs : List I} {i : I} {outs : List O} {out : O}
    (hrun : run step s inputs = .ok (outs, mid)) (hstep : step mid i = .ok (out, next)) :
    run step s (inputs ++ [i]) = .ok (outs ++ [out], next) := by
  rw [run_append hrun, run_cons_of_ok hstep]
  rfl

/-- A run that ends takes its first step and goes on from there. -/
theorem run_cons_eq_ok {s last : S} {i : I} {rest : List I} {outs : List O}
    (hrun : run step s (i :: rest) = .ok (outs, last)) :
    ∃ out next tail, step s i = .ok (out, next) ∧ run step next rest = .ok (tail, last) ∧
      outs = out :: tail := by
  cases hstep : step s i with
  | error e => simp [run, hstep, bind, Except.bind] at hrun
  | ok answer =>
    obtain ⟨out, next⟩ := answer
    rw [run_cons_of_ok hstep] at hrun
    cases hrest : run step next rest with
    | error e => simp [hrest, Except.map] at hrun
    | ok result =>
      obtain ⟨tail, end'⟩ := result
      rw [hrest] at hrun
      cases hrun
      exact ⟨out, next, tail, rfl, hrest, rfl⟩

/-- A run is cut where its answers are cut. -/
theorem run_split {s last : S} {inputs : List I} {first second : List O}
    (hrun : run step s inputs = .ok (first ++ second, last)) :
    ∃ taken left mid, inputs = taken ++ left ∧ run step s taken = .ok (first, mid) ∧
      run step mid left = .ok (second, last) := by
  induction first generalizing s inputs with
  | nil => exact ⟨[], inputs, s, rfl, rfl, hrun⟩
  | cons out first ih =>
    cases inputs with
    | nil => cases hrun
    | cons i rest =>
      obtain ⟨out', next, tail, hstep, hrest, houts⟩ := run_cons_eq_ok hrun
      rw [List.cons_append] at houts
      obtain ⟨rfl, rfl⟩ := List.cons.inj houts
      obtain ⟨taken, left, mid, rfl, htaken, hleft⟩ := ih hrest
      refine ⟨i :: taken, left, mid, rfl, ?_, hleft⟩
      rw [run_cons_of_ok hstep, htaken]
      rfl

/-! ### Traces of a labelled relation -/

/-- The steps of a labelled relation over a list of inputs, one after the other. -/
inductive Trace (r : S → I → S → Prop) (s : S) : List I → S → Prop
  | nil : Trace r s [] s
  | concat {done : List I} {i : I} {mid t : S} (hdone : Trace r s done mid) (hlast : r mid i t) :
    Trace r s (done ++ [i]) t

namespace Trace

variable {r : S → I → S → Prop} {s t : S} {inputs : List I}

theorem append {mid : S} {first second : List I} (hfirst : Trace r s first mid)
    (hsecond : Trace r mid second t) : Trace r s (first ++ second) t := by
  induction hsecond with
  | nil => rwa [List.append_nil]
  | concat _ hlast ih =>
    rw [← List.append_assoc]
    exact ih.concat hlast

theorem split {first second : List I} (h : Trace r s (first ++ second) t) :
    ∃ mid, Trace r s first mid ∧ Trace r mid second t := by
  induction second using List.reverseRecOn generalizing t with
  | nil =>
    rw [List.append_nil] at h
    exact ⟨t, h, .nil⟩
  | append_singleton second i ih =>
    rw [← List.append_assoc] at h
    generalize hall : first ++ second ++ [i] = all at h
    cases h with
    | nil => simp at hall
    | concat hdone hlast =>
      obtain ⟨hsame, hi⟩ := List.append_inj' hall rfl
      cases hi
      subst hsame
      obtain ⟨mid, hfirst, hsecond⟩ := ih hdone
      exact ⟨mid, hfirst, hsecond.concat hlast⟩

theorem nil_iff : Trace r s [] t ↔ s = t := by
  refine ⟨fun h ↦ ?_, fun h ↦ h ▸ .nil⟩
  generalize hall : [] = all at h
  cases h with
  | nil => rfl
  | concat _ _ => simp at hall

theorem singleton_iff {i : I} : Trace r s [i] t ↔ r s i t := by
  refine ⟨fun h ↦ ?_, fun h ↦ .concat .nil h⟩
  generalize hall : [i] = all at h
  cases h with
  | nil => cases hall
  | concat hdone hlast =>
    obtain ⟨hnil, hi⟩ := List.append_inj' ((List.nil_append [i]).trans hall) rfl
    cases hi
    rw [← hnil, nil_iff] at hdone
    exact hdone ▸ hlast

/-- Assumes: `P` holds at the start, and each step over the next input of the list keeps it. It
holds at the end. -/
theorem invariant {P : List I → S → Prop} (hinit : P [] s)
    (hstep : ∀ done i mid next, (done ++ [i]) <+: inputs → P done mid → r mid i next →
      P (done ++ [i]) next) (h : Trace r s inputs t) : P inputs t := by
  induction h with
  | nil => exact hinit
  | concat _ hlast ih =>
    refine hstep _ _ _ _ List.prefix_rfl (ih fun done i mid next hbefore ↦ ?_) hlast
    exact hstep done i mid next (hbefore.trans (List.prefix_append _ _))

/-- Assumes: from a state with `P`, no step is over an input with `B`, and a step that is not over
an input with `G` keeps `P`. Before every input with `B` there is one with `G`. -/
theorem preceded {P : S → Prop} {G B : I → Prop} {early rest : List I} {i : I}
    (hstep : ∀ {mid j next}, P mid → r mid j next → ¬B j ∧ (G j ∨ P next))
    (h : Trace r s (early ++ i :: rest) t) (hinit : P s) (hi : B i) : ∃ j ∈ early, G j := by
  rw [← List.singleton_append, ← List.append_assoc] at h
  obtain ⟨next, hfirst, -⟩ := h.split
  obtain ⟨mid, hearly, hlast⟩ := hfirst.split
  have hmid : (∃ j ∈ early, G j) ∨ P mid := by
    refine hearly.invariant (P := fun done mid ↦ (∃ j ∈ done, G j) ∨ P mid) (.inr hinit) ?_
    rintro done j mid next - (⟨k, hk, hgood⟩ | hmid) hnext
    · exact .inl ⟨k, List.mem_append_left _ hk, hgood⟩
    · exact (hstep hmid hnext).2.imp (fun hgood ↦ ⟨j, by simp, hgood⟩) id
  refine hmid.resolve_right fun hmid ↦ ?_
  exact (hstep hmid (singleton_iff.mp hlast)).1 hi

/-- A fact that every step keeps is kept by a trace. -/
theorem stable {P : S → Prop} (hstep : ∀ {mid i next}, r mid i next → P mid → P next)
    (h : Trace r s inputs t) (hinit : P s) : P t :=
  h.invariant (P := fun _ ↦ P) hinit fun _ _ _ _ _ hmid hlast ↦ hstep hlast hmid

theorem mono {r' : S → I → S → Prop} (h : Trace r s inputs t)
    (hstep : ∀ {mid i next}, r mid i next → r' mid i next) : Trace r' s inputs t :=
  h.invariant (P := Trace r' s) .nil fun _ _ _ _ _ hdone hlast ↦ hdone.concat (hstep hlast)

end Trace

/-! ### Machines whose steps are not always possible -/

section Machine

variable (machine : S → I → Option (O × S))

/-- A step of the machine, labelled with its input and its answer. -/
def Steps (s : S) (label : I × O) (t : S) : Prop := machine s label.1 = some (label.2, t)

/-- Take each input in turn, collecting the labels. -/
def labels : S → List I → Option (List (I × O) × S)
  | s, [] => some ([], s)
  | s, i :: rest => do
    let (out, next) ← machine s i
    let (tail, last) ← labels next rest
    return ((i, out) :: tail, last)

variable {machine}

theorem trace_of_labels {s t : S} {inputs : List I} {taken : List (I × O)}
    (h : labels machine s inputs = some (taken, t)) : Trace (Steps machine) s taken t := by
  induction inputs generalizing s taken with
  | nil =>
    cases h
    exact .nil
  | cons i rest ih =>
    simp only [labels, Option.bind_eq_bind, Option.bind_eq_some_iff] at h
    obtain ⟨⟨out, next⟩, hstep, ⟨tail, last⟩, hrest, hlast⟩ := h
    cases hlast
    exact .append (.concat (i := (i, out)) .nil hstep) (ih hrest)

end Machine

/-- Assumes: from each state with the invariant a step succeeds, keeps the invariant and is a step
of the abstract relation. Every run ends, keeps the invariant and is a trace of the relation. -/
theorem exists_run_trace {T : Type} {r : T → I → T → Prop} (abstraction : S → T) (Inv : S → Prop)
    (hstep : ∀ s i, Inv s → ∃ out t, step s i = .ok (out, t) ∧ Inv t ∧
      r (abstraction s) i (abstraction t)) {s : S} (hs : Inv s) (inputs : List I) :
    ∃ outs t, run step s inputs = .ok (outs, t) ∧ Inv t ∧
      Trace r (abstraction s) inputs (abstraction t) := by
  induction inputs using List.reverseRecOn with
  | nil => exact ⟨[], s, rfl, hs, .nil⟩
  | append_singleton inputs i ih =>
    obtain ⟨outs, mid, hrun, hmid, htrace⟩ := ih
    obtain ⟨out, t, hlast, ht, hr⟩ := hstep mid i hmid
    exact ⟨outs ++ [out], t, run_concat hrun hlast, ht, htrace.concat hr⟩

/-- The same, for a relation that sees the answers too. -/
theorem exists_run_answered {T : Type} {r : T → I × O → T → Prop} (abstraction : S → T)
    (Inv : S → Prop)
    (hstep : ∀ s i, Inv s → ∃ out t, step s i = .ok (out, t) ∧ Inv t ∧
      r (abstraction s) (i, out) (abstraction t)) {s : S} (hs : Inv s) (inputs : List I) :
    ∃ outs t, run step s inputs = .ok (outs, t) ∧ outs.length = inputs.length ∧ Inv t ∧
      Trace r (abstraction s) (inputs.zip outs) (abstraction t) := by
  induction inputs using List.reverseRecOn with
  | nil => exact ⟨[], s, rfl, rfl, hs, .nil⟩
  | append_singleton inputs i ih =>
    obtain ⟨outs, mid, hrun, hlength, hmid, htrace⟩ := ih
    obtain ⟨out, t, hlast, ht, hr⟩ := hstep mid i hmid
    refine ⟨outs ++ [out], t, run_concat hrun hlast, by simp [hlength], ht, ?_⟩
    rw [List.zip_append hlength.symm]
    exact htrace.concat hr

/-! ### Rules of invariants -/

/-- Assumes: `P` holds at the start of a relation's steps, and each step keeps it. It holds wherever
the steps lead. -/
theorem invariant_of_reachable {r : S → S → Prop} {P : S → Prop} {s t : S} (hinit : P s)
    (hstep : ∀ {mid next}, P mid → r mid next → P next) (hreach : Relation.ReflTransGen r s t) :
    P t := by
  induction hreach with
  | refl => exact hinit
  | tail _ hlast ih => exact hstep ih hlast

/-- Assumes: a step that is possible keeps `P`. Steps one after the other keep it. -/
theorem foldlM_invariant {step : S → I → Option S} {P : S → Prop}
    (hstep : ∀ {s i t}, P s → step s i = some t → P t) {inputs : List I} {s t : S}
    (h : inputs.foldlM step s = some t) (hs : P s) : P t := by
  induction inputs generalizing s with
  | nil => exact Option.some.inj h ▸ hs
  | cons i rest ih =>
    rw [List.foldlM_cons] at h
    obtain ⟨mid, hmid, hrest⟩ := Option.bind_eq_some_iff.mp h
    exact ih hrest (hstep hs hmid)

/-- Steps one after the other make a trace. -/
theorem trace_of_foldlM {step : S → I → Option S} {inputs : List I} {s t : S}
    (h : inputs.foldlM step s = some t) : Trace (fun s i t ↦ step s i = some t) s inputs t := by
  induction inputs generalizing s with
  | nil =>
    cases h
    exact .nil
  | cons i rest ih =>
    rw [List.foldlM_cons] at h
    obtain ⟨mid, hmid, hrest⟩ := Option.bind_eq_some_iff.mp h
    exact .append (.concat (i := i) .nil hmid) (ih hrest)

/-- Assumes: `P` holds of nothing taken, and each step over the next input of the list succeeds and
keeps it. The run succeeds, and `P` holds at its end. -/
theorem run_of_invariant {P : List I → List O → S → Prop} {s : S} {inputs : List I}
    (hinit : P [] [] s)
    (hstep : ∀ done i outs mid, (done ++ [i]) <+: inputs → P done outs mid →
      ∃ out next, step mid i = .ok (out, next) ∧ P (done ++ [i]) (outs ++ [out]) next) :
    ∃ outs last, run step s inputs = .ok (outs, last) ∧ P inputs outs last := by
  induction inputs using List.reverseRecOn with
  | nil => exact ⟨[], s, rfl, hinit⟩
  | append_singleton inputs i ih =>
    obtain ⟨outs, mid, hrun, hmid⟩ := ih fun done j outs mid hbefore ↦
      hstep done j outs mid (hbefore.trans (List.prefix_append inputs [i]))
    obtain ⟨out, next, hlast, hnext⟩ := hstep inputs i outs mid List.prefix_rfl hmid
    exact ⟨outs ++ [out], next, run_concat hrun hlast, hnext⟩

end DalService.Foundation
