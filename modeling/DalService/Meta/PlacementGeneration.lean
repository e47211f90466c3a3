import DalService.Api.Client
import DalService.Meta.PlanLifecycle

/-!
# Placement generations

Each rewrite of a placement writes the log id of the configuration it records, and the readiness of
search generations and the redirects of clients are compared with it. The seed of a data placement
writes the id of the meta group's entry, though, and every later rewrite an id of the data group's
own log. Ids of the two logs are not ordered with each other: the two voter sets of
`shared_generation` have one id.

Where the ids of the data group's log that change the voters lie above the seed's, they identify the
generation (`voters_log_id_identifies_generation`): the ids a placement has had are the seed's and
those of the applied observations, in order (`GenerationInvariant`).
-/

set_option autoImplicit false

namespace DalService.Meta

open Foundation MetaStateMachine DalService.Search

/-! ### The generations a run writes -/

/-- The observation a command reports for a group. -/
def MetaCommand.observation (group : GroupId) : MetaCommand → Option DataConfigObservation
  | .finalizePlan other _ observation => if other = group then some observation else none
  | .abortReport other _ observation => if other = group then some observation else none
  | _ => none

/-- The voters a command seeds the placement of a group with. -/
def MetaCommand.seed (group : GroupId) : MetaCommand → Option (List NodeId)
  | .seedPlacement other voters => if other = group then some voters else none
  | _ => none

/-- The observations applied to a group. -/
def observations (group : GroupId) (log : List (Entry × MetaApplyResult)) :
    List DataConfigObservation :=
  log.filterMap fun answered ↦
    if answered.2 = .applied then answered.1.2.observation group else none

/-- The seeds applied to a group, each with its log id. -/
def seeds (group : GroupId) (log : List (Entry × MetaApplyResult)) : List (LogId × List NodeId) :=
  log.filterMap fun answered ↦
    if answered.2 = .applied then (answered.1.2.seed group).map (answered.1.1, ·) else none

/-- Observations of the membership entries of one log, taken in the order of the log: a later one is
of a later entry, or of the same entry. -/
def InLogOrder (observed : List DataConfigObservation) : Prop :=
  observed.Pairwise fun first second ↦ first.configLogId < second.configLogId ∨
    (first.configLogId = second.configLogId ∧ voterSet first.voterSet = voterSet second.voterSet)

instance (observed : List DataConfigObservation) : Decidable (InLogOrder observed) :=
  inferInstanceAs (Decidable (observed.Pairwise _))

/-- Every seed of a group lies below every observation of other voters that is applied to it. -/
def SeededBelow (group : GroupId) (log : List (Entry × MetaApplyResult)) : Prop :=
  ∀ seed ∈ seeds group log, ∀ observed ∈ observations group log,
    voterSet seed.2 ≠ voterSet observed.voterSet → seed.1 < observed.configLogId

instance (group : GroupId) (log : List (Entry × MetaApplyResult)) :
    Decidable (SeededBelow group log) :=
  inferInstanceAs (Decidable (∀ seed ∈ seeds group log, _))

theorem observations_append (group : GroupId) (first second : List (Entry × MetaApplyResult)) :
    observations group (first ++ second) = observations group first ++ observations group second :=
  List.filterMap_append

theorem seeds_append (group : GroupId) (first second : List (Entry × MetaApplyResult)) :
    seeds group (first ++ second) = seeds group first ++ seeds group second := List.filterMap_append

variable {prims : Primitives} {identity : Option Identity} {v next : MetaView}
  {answered : Entry × MetaApplyResult} {partition : UInt16}

/-- What an answered command does to the generation of a data placement: nothing, or it seeds the
placement with its own log id, or it rewrites it from an observation. -/
inductive Generates (partition : UInt16) (answered : Entry × MetaApplyResult) :
    Option Placement → Option Placement → Prop
  | unplaced (hobserved : observations (.data partition) [answered] = [])
    (hseeds : seeds (.data partition) [answered] = []) : Generates partition answered none none
  | kept (placed placed' : Placement) (hvoters : placed'.voters = placed.voters)
    (hlog : placed'.votersLogId = placed.votersLogId)
    (hobserved : observations (.data partition) [answered] = [])
    (hseeds : seeds (.data partition) [answered] = []) :
    Generates partition answered (some placed) (some placed')
  | seeded (placed : Placement) (voters : List NodeId) (hlog : placed.votersLogId = answered.1.1)
    (hvoters : voterSet placed.voters = voterSet voters)
    (hobserved : observations (.data partition) [answered] = [])
    (hseeds : seeds (.data partition) [answered] = [(answered.1.1, voters)]) :
    Generates partition answered none (some placed)
  | rewritten (placed placed' : Placement) (observed : DataConfigObservation)
    (hlog : placed'.votersLogId = observed.configLogId)
    (hvoters : voterSet placed'.voters = voterSet observed.voterSet)
    (hobserved : observations (.data partition) [answered] = [observed])
    (hseeds : seeds (.data partition) [answered] = []) :
    Generates partition answered (some placed) (some placed')

/-- Assumes: a command that neither seeds the group nor reports for it. The placement is kept. -/
theorem generates_of_kept (hobserved : answered.1.2.observation (.data partition) = none)
    (hseed : answered.1.2.seed (.data partition) = none)
    (hsame : next.placement (.data partition) = v.placement (.data partition)) :
    Generates partition answered (v.placement (.data partition))
      (next.placement (.data partition)) := by
  have hnone : observations (.data partition) [answered] = [] := by simp [observations, hobserved]
  have hseeds : seeds (.data partition) [answered] = [] := by simp [seeds, hseed]
  rw [hsame]
  cases v.placement (.data partition) with
  | none => exact .unplaced hnone hseeds
  | some placed => exact .kept placed placed rfl rfl hnone hseeds

theorem observation_eq_none_of_creation {cmd : MetaCommand} (group : GroupId)
    {built : String × SearchIndexDefinition × UInt32 × Bool} (h : cmd.creation = some built) :
    cmd.observation group = none ∧ cmd.seed group = none := by
  cases cmd <;> first | exact ⟨rfl, rfl⟩ | cases h

variable (partition) in
theorem Answers.generates (h : Answers prims identity v answered next) :
    Generates partition answered (v.placement (.data partition))
      (next.placement (.data partition)) := by
  obtain ⟨⟨logId, cmd⟩, result⟩ := answered
  rcases h with ⟨hother, rfl⟩ | ⟨happlied, heffect⟩
  · have hobserved : observations (.data partition) [((logId, cmd), result)] = [] := by
      simp_all [observations]
    have hseeds : seeds (.data partition) [((logId, cmd), result)] = [] := by simp_all [seeds]
    cases next.placement (.data partition) with
    | none => exact .unplaced hobserved hseeds
    | some placed => exact .kept placed placed rfl rfl hobserved hseeds
  · obtain rfl : result = .applied := happlied
    cases heffect with
    | directory _ _ hdirectory =>
      cases hdirectory with
      | clusterInit => exact generates_of_kept rfl rfl (by simp)
      | _ => exact generates_of_kept rfl rfl rfl
    | search _ _ hsearch =>
      have hsame : next.placement (.data partition) = v.placement (.data partition) := by
        rw [hsearch.sameControl.placement]
      cases hsearch with
      | build _ _ _ _ _ _ _ hcmd =>
        have hother := observation_eq_none_of_creation (.data partition) hcmd
        exact generates_of_kept hother.1 hother.2 rfl
      | drop => exact generates_of_kept rfl rfl hsame
      | _ => exact generates_of_kept rfl rfl rfl
    | maintenance _ hmaintenance => cases hmaintenance <;> exact generates_of_kept rfl rfl rfl
    | placement group placed _ hplacement =>
      by_cases hgroup : group = .data partition
      · subst hgroup
        simp only [Function.update_self]
        cases hplacement with
        | seed config _ voters _ _ _ _ _ hnew =>
          rw [hnew]
          exact .seeded _ voters rfl (voterSet_ascending voters) rfl
            (by simp [seeds, MetaCommand.seed])
        | plan config _ planId targetVoters old _ hplaced =>
          rw [hplaced]
          exact .kept old _ rfl rfl rfl rfl
        | markAborting _ old plan hplaced =>
          rw [hplaced]
          exact .kept old _ rfl rfl rfl rfl
        | finalize _ old plan observation hplaced _ _ _ _ hobserved =>
          rw [hplaced]
          refine .rewritten old _ observation rfl ?_ ?_ rfl
          · rw [voterSet_sortUnstable, hobserved]
          · simp [observations, MetaCommand.observation]
        | abort _ old plan observation voters hplaced _ _ _ _ hobserved =>
          rw [hplaced]
          refine .rewritten old _ observation rfl ?_ ?_ rfl
          · rw [voterSet_sortUnstable, hobserved]
          · simp [observations, MetaCommand.observation]
      · have hsame : Function.update v.placement group (some placed) (.data partition) =
            v.placement (.data partition) := Function.update_of_ne (Ne.symm hgroup) _ _
        cases hplacement with
        | seed _ other =>
          exact generates_of_kept rfl (by simp [MetaCommand.seed, hgroup]) hsame
        | finalize => exact generates_of_kept (by simp [MetaCommand.observation, hgroup]) rfl hsame
        | abort => exact generates_of_kept (by simp [MetaCommand.observation, hgroup]) rfl hsame
        | _ => exact generates_of_kept rfl rfl hsame

/-! ### The invariant -/

/-- The log id and the voters of a placement are the seed's until an observation is applied, and
from then on the last observation's. -/
inductive GenerationInvariant (partition : UInt16) (done : List (Entry × MetaApplyResult)) :
    Option Placement → Prop
  | unplaced (hobserved : observations (.data partition) done = [])
    (hseeds : seeds (.data partition) done = []) : GenerationInvariant partition done none
  | seeded (placed : Placement) (voters : List NodeId)
    (hobserved : observations (.data partition) done = [])
    (hseeds : seeds (.data partition) done = [(placed.votersLogId, voters)])
    (hvoters : voterSet placed.voters = voterSet voters) :
    GenerationInvariant partition done (some placed)
  | rewritten (placed : Placement) (older : List DataConfigObservation)
    (newest : DataConfigObservation)
    (hobserved : observations (.data partition) done = older ++ [newest])
    (hlog : placed.votersLogId = newest.configLogId)
    (hvoters : voterSet placed.voters = voterSet newest.voterSet) :
    GenerationInvariant partition done (some placed)

theorem GenerationInvariant.step {done : List (Entry × MetaApplyResult)}
    {before after : Option Placement} (h : GenerationInvariant partition done before)
    (hstep : Generates partition answered before after) :
    GenerationInvariant partition (done ++ [answered]) after := by
  cases hstep with
  | unplaced hobserved hseeds =>
    cases h with
    | unplaced hobserved' hseeds' =>
      refine .unplaced ?_ ?_
      · rw [observations_append, hobserved', hobserved, List.append_nil]
      · rw [seeds_append, hseeds', hseeds, List.append_nil]
  | kept placed placed' hvoters hlog hobserved hseeds =>
    cases h with
    | seeded _ voters hobserved' hseeds' hvoters' =>
      refine .seeded placed' voters ?_ ?_ (hvoters ▸ hvoters')
      · rw [observations_append, hobserved', hobserved, List.append_nil]
      · rw [seeds_append, hseeds', hseeds, hlog, List.append_nil]
    | rewritten _ older newest hobserved' hlog' hvoters' =>
      refine .rewritten placed' older newest ?_ (hlog.trans hlog') (hvoters ▸ hvoters')
      rw [observations_append, hobserved', hobserved, List.append_nil]
  | seeded placed voters hlog hvoters hobserved hseeds =>
    cases h with
    | unplaced hobserved' hseeds' =>
      refine .seeded placed voters ?_ ?_ hvoters
      · rw [observations_append, hobserved', hobserved, List.append_nil]
      · rw [seeds_append, hseeds', hseeds, hlog, List.nil_append]
  | rewritten placed placed' observed hlog hvoters hobserved hseeds =>
    refine .rewritten placed' (observations (.data partition) done) observed ?_ hlog hvoters
    rw [observations_append, hobserved]

theorem GenerationInvariant.trace {done log : List (Entry × MetaApplyResult)}
    (h : GenerationInvariant partition done (v.placement (.data partition)))
    (htrace : Trace (Answers prims identity) v log next) :
    GenerationInvariant partition (done ++ log) (next.placement (.data partition)) := by
  refine htrace.invariant
    (P := fun taken w ↦
      GenerationInvariant partition (done ++ taken) (w.placement (.data partition)))
    ?_ fun taken answered mid after _ hmid hstep ↦ ?_
  · rwa [List.append_nil]
  · rw [← List.append_assoc]
    exact hmid.step (hstep.generates partition)

/-! ### Later generations -/

/-- A later placement of a group: its log id is greater, or it has the same voters. -/
def Supersedes (placed later : Placement) : Prop :=
  placed.votersLogId < later.votersLogId ∨ voterSet placed.voters = voterSet later.voters

theorem Supersedes.lt_of_ne {placed later : Placement} (h : Supersedes placed later)
    (hne : voterSet placed.voters ≠ voterSet later.voters) :
    placed.votersLogId < later.votersLogId := h.resolve_right hne

/-- Where the voters have changed in between, the log id is greater even if they are the same
again. -/
theorem Supersedes.lt_of_changed {first second third : Placement} (h12 : Supersedes first second)
    (h13 : Supersedes first third) (h23 : Supersedes second third)
    (hne : voterSet second.voters ≠ voterSet third.voters) :
    first.votersLogId < third.votersLogId := by
  rcases h12 with hlt | hsame
  · exact LogId.lt_trans hlt (h23.lt_of_ne hne)
  · exact h13.lt_of_ne (hsame.trans_ne hne)

/-- Observations in the order of the log and, where they change the voters, above the seed. -/
structure Ordered (partition : UInt16) (log : List (Entry × MetaApplyResult)) : Prop where
  order : InLogOrder (observations (.data partition) log)
  seed : SeededBelow (.data partition) log

theorem Ordered.of_prefix {first second : List (Entry × MetaApplyResult)}
    (h : Ordered partition second) (hbefore : first <+: second) : Ordered partition first where
  order := h.order.sublist (hbefore.sublist.filterMap _)
  seed := fun seed hseed observed hobserved ↦
    h.seed seed ((hbefore.sublist.filterMap _).subset hseed) observed
      ((hbefore.sublist.filterMap _).subset hobserved)

/-- The placement at a later cut of a run supersedes the one at an earlier cut. -/
theorem GenerationInvariant.supersedes {done all : List (Entry × MetaApplyResult)}
    {placed later : Placement} (h : GenerationInvariant partition done (some placed))
    (hlater : GenerationInvariant partition all (some later)) (hbefore : done <+: all)
    (hordered : Ordered partition all) : Supersedes placed later := by
  obtain ⟨log, rfl⟩ := hbefore
  cases hlater with
  | seeded _ voters hobserved hseeds hvoters =>
    rw [observations_append, List.append_eq_nil_iff] at hobserved
    cases h with
    | seeded _ voters' hobserved' hseeds' hvoters' =>
      -- no placement is seeded twice
      rw [seeds_append, hseeds'] at hseeds
      obtain ⟨-, rfl⟩ := Prod.mk.inj (List.cons.inj hseeds).1
      exact .inr (hvoters'.trans hvoters.symm)
    | rewritten _ older newest hobserved' => simp [hobserved.1] at hobserved'
  | rewritten _ older newest hobserved hlog hvoters =>
    rw [Supersedes, hlog, hvoters]
    cases h with
    | seeded _ voters hobserved' hseeds hvoters' =>
      rw [hvoters']
      by_cases hsame : voterSet voters = voterSet newest.voterSet
      · exact .inr hsame
      · refine .inl (hordered.seed (placed.votersLogId, voters) ?_ newest ?_ hsame)
        · simp [seeds_append, hseeds]
        · simp [hobserved]
    | rewritten _ older' newest' hobserved' hlog' hvoters' =>
      rw [hlog', hvoters']
      have horder := hordered.order
      rw [observations_append, hobserved'] at horder hobserved
      rcases List.eq_nil_or_concat' (observations (.data partition) log) with
        hnone | ⟨new, last, hnew⟩
      · rw [hnone, List.append_nil] at hobserved
        cases (List.append_inj' hobserved rfl).2
        exact .inr rfl
      · rw [hnew, ← List.append_assoc] at hobserved
        cases (List.append_inj' hobserved rfl).2
        have hpair := (List.pairwise_append.mp horder).2.2 newest' (by simp) newest (by simp [hnew])
        exact hpair.imp id And.right

/-- Assumes: a readiness report for a data group was applied. It names the log id of the
placement. -/
theorem votersLogId_of_reported {s s' : Storage} (hs : WellFormed prims s.state) {logId : LogId}
    {name : String} {ready : SearchIndexReady} {placed : Placement}
    (hgroup : ready.group = .data partition)
    (hplaced : (view s.state).placement (.data partition) = some placed)
    (hstep : step prims s (logId, .reportSearchIndexReady name ready) = .ok (.applied, s')) :
    ready.votersLogId = placed.votersLogId := by
  obtain ⟨result, next, hstep', -, -, hanswers⟩ :=
    exists_answer hs (logId, .reportSearchIndexReady name ready)
  obtain rfl : MetaApplyResult.applied = result :=
    congrArg Prod.fst (Except.ok.inj (hstep.symm.trans hstep'))
  generalize view s.state = v, view next.state = after at hanswers hplaced
  rcases hanswers with ⟨hother, -⟩ | ⟨-, heffect⟩
  · exact absurd rfl hother
  · cases heffect with
    | directory _ _ h => cases h
    | maintenance _ h => cases h
    | placement _ _ _ h => cases h
    | search _ _ h =>
      cases h with
      | build _ _ _ _ _ _ _ hcmd => cases hcmd
      | ready _ _ _ _ _ _ old _ _ _ _ _ _ _ _ _ hplaced' _ hlog =>
        rw [hgroup, hplaced] at hplaced'
        rw [← hlog, Option.some.inj hplaced']

variable (prims) in
/-- Entries, cut at three places, are applied from the empty state of a replica. Suppose that over
the whole run the observations applied to a data group are of membership entries of one log, in its
order, and those of other voters lie above the seed. If the middle entry rewrites the placement with
another voter set, then its log id is greater than at the earlier cut, and stays so: a readiness
report accepted at the earlier cut does not count as current later, and a redirect learned there is
subsumed by the later snapshot. At two cuts with different voter sets the log ids differ. -/
theorem voters_log_id_identifies_generation (identity : Option Identity)
    (epoch : Option (BitVec 128)) (partition : UInt16) (before between after : List Entry)
    (entry : Entry) :
    ∃ results0 s0 results1 s1 result s2 results3 s3,
      run (step prims) (emptyStorage identity epoch) before = .ok (results0, s0) ∧
      run (step prims) s0 between = .ok (results1, s1) ∧
      step prims s1 entry = .ok (result, s2) ∧
      run (step prims) s2 after = .ok (results3, s3) ∧
      (Ordered partition (before.zip results0 ++ between.zip results1 ++
          (entry, result) :: after.zip results3) →
        ∀ p0 p1 p2 p3, (view s0.state).placement (.data partition) = some p0 →
        (view s1.state).placement (.data partition) = some p1 →
        (view s2.state).placement (.data partition) = some p2 →
        (view s3.state).placement (.data partition) = some p3 →
        (voterSet p2.voters ≠ voterSet p1.voters →
          p0.votersLogId < p2.votersLogId ∧ p0.votersLogId < p3.votersLogId ∧
          (∀ logId name ready accepted building, ready.group = .data partition →
            step prims s0 (logId, .reportSearchIndexReady name ready) = .ok (.applied, accepted) →
            (view s3.state).ready name building.id (.data partition) ready.nodeId = some ready →
            ¬ReadyAt (view s3.state) name building (.data partition) p3 ready.nodeId) ∧
          ∀ hints : Api.RedirectHints, hints.learnedAt = some p0.votersLogId →
            hints.subsumedBy p3.votersLogId = true) ∧
        (voterSet p0.voters ≠ voterSet p3.voters → p0.votersLogId ≠ p3.votersLogId)) := by
  have hempty : WellFormed prims (emptyStorage identity epoch).state :=
    wellFormed_emptyStorage identity epoch
  obtain ⟨results0, s0, h0, -, hid0, hwell0, htrace0⟩ := exists_run_answers hempty before
  obtain ⟨results1, s1, h1, -, hid1, hwell1, htrace1⟩ := exists_run_answers hwell0 between
  obtain ⟨result, s2, h2, hid2, hwell2, hanswers⟩ := exists_answer hwell1 entry
  obtain ⟨results3, s3, h3, -, -, -, htrace3⟩ := exists_run_answers hwell2 after
  refine ⟨results0, s0, results1, s1, result, s2, results3, s3, h0, h1, h2, h3,
    fun hordered p0 p1 p2 p3 hp0 hp1 hp2 hp3 ↦ ?_⟩
  have hstart : GenerationInvariant partition []
      ((view (emptyStorage identity epoch).state).placement (.data partition)) := by
    rw [view_emptyStorage]
    exact .unplaced rfl rfl
  have hinv0 := hstart.trace htrace0
  have hinv1 := hinv0.trace htrace1
  have hinv2 := hinv1.step (hanswers.generates partition)
  have hinv3 := hinv2.trace htrace3
  rw [List.nil_append, hp0] at hinv0
  rw [List.nil_append, hp1] at hinv1
  rw [List.nil_append, hp2] at hinv2
  rw [List.nil_append, hp3] at hinv3
  -- at each cut the placement supersedes those at the cuts before
  have hbefore1 : before.zip results0 <+: before.zip results0 ++ between.zip results1 :=
    List.prefix_append _ _
  have hbefore2 := List.prefix_append (before.zip results0 ++ between.zip results1)
    [(entry, result)]
  have hbefore3 := List.prefix_append
    (before.zip results0 ++ between.zip results1 ++ [(entry, result)]) (after.zip results3)
  rw [List.append_cons] at hordered
  have hcut2 := hordered.of_prefix hbefore3
  have h01 := hinv0.supersedes hinv1 hbefore1 (hcut2.of_prefix hbefore2)
  have h02 := hinv0.supersedes hinv2 (hbefore1.trans hbefore2) hcut2
  have h12 := hinv1.supersedes hinv2 hbefore2 hcut2
  have h03 := hinv0.supersedes hinv3 (hbefore1.trans (hbefore2.trans hbefore3)) hordered
  have h13 := hinv1.supersedes hinv3 (hbefore2.trans hbefore3) hordered
  have h23 := hinv2.supersedes hinv3 hbefore3 hordered
  have hne_of_lt : ∀ {first second : LogId}, first < second → first ≠ second := by
    rintro first _ hlt rfl
    exact LogId.lt_irrefl first hlt
  refine ⟨fun hvoters ↦ ?_, fun hvoters ↦ ?_⟩
  · have hlt : p0.votersLogId < p2.votersLogId := h01.lt_of_changed h02 h12 hvoters.symm
    have hlater : p0.votersLogId < p3.votersLogId := by
      by_cases hsame : voterSet p2.voters = voterSet p3.voters
      · exact h01.lt_of_changed h03 h13 (hsame ▸ hvoters.symm)
      · exact LogId.lt_trans hlt (h23.lt_of_ne hsame)
    refine ⟨hlt, hlater, ?_, fun hints hhints ↦ by
      simp [Api.RedirectHints.subsumedBy, hhints, hlater]⟩
    rintro logId name ready accepted building hgroup haccepted hstored ⟨found, hfound, hcurrent, -⟩
    obtain rfl : ready = found := Option.some.inj (hstored.symm.trans hfound)
    exact hne_of_lt hlater
      ((votersLogId_of_reported hwell0 hgroup hp0 haccepted).symm.trans hcurrent)
  · exact hne_of_lt (h03.lt_of_ne hvoters)

/-- A data group is seeded by entry 9 of the meta group's log and moved by entry 12 of its own. -/
theorem voters_log_id_identifies_generation_moved :
    let prims : Primitives := ⟨fun _ ↦ Vector.replicate 32 0, id⟩
    let before : List Entry :=
      [(⟨1, 4⟩, .clusterInit ⟨7, PROTOCOL_VERSION, 1, 3, .CANONICAL⟩ [1, 2, 3]),
        (⟨1, 5⟩, .registerNode 1 "a1" "b1"), (⟨1, 6⟩, .registerNode 2 "a2" "b2"),
        (⟨1, 7⟩, .registerNode 3 "a3" "b3"), (⟨1, 8⟩, .registerNode 4 "a4" "b4"),
        (⟨1, 9⟩, .seedPlacement (.data 0) [1, 2, 3])]
    let between : List Entry := [(⟨1, 10⟩, .createPlan (.data 0) 0 [1, 2, 4])]
    let entry : Entry := (⟨1, 11⟩, .finalizePlan (.data 0) 10 ⟨.data 0, 10, [1, 2, 4], ⟨1, 12⟩⟩)
    ∃ results0 s0 results1 s1 result s2,
      run (step prims) (emptyStorage (some ⟨7, 1⟩) none) before = .ok (results0, s0) ∧
      run (step prims) s0 between = .ok (results1, s1) ∧
      step prims s1 entry = .ok (result, s2) ∧
      ∀ p0 p2, (view s0.state).placement (.data 0) = some p0 →
        (view s2.state).placement (.data 0) = some p2 → p0.votersLogId < p2.votersLogId := by
  intro prims before between entry
  obtain ⟨results0, s0, results1, s1, result, s2, results3, s3, h0, h1, h2, h3, hall⟩ :=
    voters_log_id_identifies_generation prims (some ⟨7, 1⟩) none 0 before between [] entry
  cases h3
  refine ⟨results0, s0, results1, s1, result, s2, h0, h1, h2, fun p0 p2 hp0 hp2 ↦ ?_⟩
  -- the three runs, evaluated: every entry is applied
  have hran0 : (run (step prims) (emptyStorage (some ⟨7, 1⟩) none) before).toOption.map Prod.fst =
      some (List.replicate 6 .applied) := by
    decide +kernel
  have hran1 : (run (step prims) (emptyStorage (some ⟨7, 1⟩) none) (before ++ between)).toOption.map
      (fun found ↦ (found.1, (view found.2.state).placement (.data 0))) =
        some (List.replicate 7 .applied,
          some ⟨[1, 2, 3], ⟨1, 9⟩, some ⟨10, [1, 2, 4], false⟩⟩) := by
    decide +kernel
  have hran2 : (run (step prims) (emptyStorage (some ⟨7, 1⟩) none)
      (before ++ between ++ [entry])).toOption.map (fun found ↦ (found.1,
        (view found.2.state).placement (.data 0))) =
        some (List.replicate 8 .applied, some ⟨[1, 2, 4], ⟨1, 12⟩, none⟩) := by
    decide +kernel
  have hrun1 := run_append h0 between
  rw [h1] at hrun1
  have hrun2 := run_concat hrun1 h2
  rw [h0] at hran0
  rw [hrun1] at hran1
  rw [hrun2] at hran2
  obtain rfl : results0 = List.replicate 6 .applied := Option.some.inj hran0
  obtain ⟨hresults1, hp1⟩ := Prod.mk.inj (Option.some.inj hran1)
  obtain rfl : results1 = [.applied] :=
    List.append_cancel_left (hresults1.trans
      (List.replicate_append_replicate (n := 6) (m := 1)).symm)
  obtain ⟨hresult, hp2'⟩ := Prod.mk.inj (Option.some.inj hran2)
  obtain rfl : result = .applied := by simpa [List.replicate] using hresult
  obtain rfl := Option.some.inj (hp2.symm.trans hp2')
  exact ((hall ⟨by decide +kernel, by decide +kernel⟩ p0 _ _ _ hp0 hp1 hp2 hp2).1 (by decide)).1

/-- A data group is seeded with the voters 1, 2, 3 by entry 9 of the meta group's log, and moved to
1, 2, 4 by entry 9 of its own: both voter sets have one log id, and a redirect learned under the
first is not subsumed by a snapshot of the second. -/
theorem shared_generation :
    let prims : Primitives := ⟨fun _ ↦ Vector.replicate 32 0, id⟩
    let before : List Entry :=
      [(⟨1, 4⟩, .clusterInit ⟨7, PROTOCOL_VERSION, 1, 3, .CANONICAL⟩ [1, 2, 3]),
        (⟨1, 5⟩, .registerNode 1 "a1" "b1"), (⟨1, 6⟩, .registerNode 2 "a2" "b2"),
        (⟨1, 7⟩, .registerNode 3 "a3" "b3"), (⟨1, 8⟩, .registerNode 4 "a4" "b4"),
        (⟨1, 9⟩, .seedPlacement (.data 0) [1, 2, 3])]
    let after : List Entry :=
      [(⟨1, 10⟩, .createPlan (.data 0) 0 [1, 2, 4]),
        (⟨1, 11⟩, .finalizePlan (.data 0) 10 ⟨.data 0, 10, [1, 2, 4], ⟨1, 9⟩⟩)]
    (run (step prims) (emptyStorage (some ⟨7, 1⟩) none) before).toOption.map
        (fun found ↦ (view found.2.state).placement (.data 0)) =
      some (some ⟨[1, 2, 3], ⟨1, 9⟩, none⟩) ∧
    (run (step prims) (emptyStorage (some ⟨7, 1⟩) none) (before ++ after)).toOption.map
        (fun found ↦ ((view found.2.state).placement (.data 0),
          decide (InLogOrder (observations (.data 0) ((before ++ after).zip found.1))))) =
      some (some ⟨[1, 2, 4], ⟨1, 9⟩, none⟩, true) ∧
    voterSet [1, 2, 3] ≠ voterSet [1, 2, 4] ∧
    Api.RedirectHints.subsumedBy ⟨some ⟨1, 9⟩, []⟩ ⟨1, 9⟩ = false := by
  decide +kernel

end DalService.Meta
