import Mathlib.Data.List.TakeWhile
import TensorIR.Proofs.Pipeline.FailFast

/-!
# The order of passes

A pass is put behind all passes of its own or an earlier stage. So the stages never decrease, and
the passes of one stage stand as they were added (`InStageOrder`). There is only one such list,
which is what a stable sort makes of the passes (`InStageOrder.eq_mergeSort`). Runs leave a pipeline
as it is, hence it does not matter when passes are added, and every run takes them in that order
(`execution_order`).
-/

namespace TensorIR

namespace Stage

variable {a b c : Stage}

theorem rank_injective : Function.Injective rank := by
  intro a b h
  cases a <;> cases b <;> first | rfl | cases h

theorem le_refl (a : Stage) : a ≤ a := Nat.le_refl a.rank

theorem le_trans (hab : a ≤ b) (hbc : b ≤ c) : a ≤ c := Nat.le_trans (m := b.rank) hab hbc

theorem le_total (a b : Stage) : a ≤ b ∨ b ≤ a := Nat.le_total a.rank b.rank

theorem le_antisymm (hab : a ≤ b) (hba : b ≤ a) : a = b :=
  rank_injective (Nat.le_antisymm hab hba)

end Stage

/-- The passes that were added, in the order of their stages, those of one stage as they were
added. -/
structure InStageOrder (added sorted : List Pass) : Prop where
  perm : sorted.Perm added
  stages : sorted.Pairwise fun a b => a.stage ≤ b.stage
  stable : ∀ stage, sorted.filter (·.stage = stage) = added.filter (·.stage = stage)

/-- A stable sort of passes by their stages. -/
def Pass.sortByStage (passes : List Pass) : List Pass :=
  passes.mergeSort fun a b => a.stage ≤ b.stage

namespace InStageOrder

variable {added sorted sorted' : List Pass}

theorem nil : InStageOrder [] [] where
  perm := .nil
  stages := .nil
  stable _ := rfl

/-! ## There is one such order -/

theorem mem_iff_of_filter_eq
    (h : ∀ stage, sorted.filter (·.stage = stage) = sorted'.filter (·.stage = stage)) (q : Pass) :
    q ∈ sorted ↔ q ∈ sorted' := by
  have hq := congrArg (q ∈ ·) (h q.stage)
  simpa [List.mem_filter] using hq

/-- Lists in the order of the stages are equal if they are at each stage: the first passes are of
the same stage, the least that occurs in either list. -/
theorem eq_of_filter_eq (hs : sorted.Pairwise fun a b => a.stage ≤ b.stage)
    (hs' : sorted'.Pairwise fun a b => a.stage ≤ b.stage)
    (h : ∀ stage, sorted.filter (·.stage = stage) = sorted'.filter (·.stage = stage)) :
    sorted = sorted' := by
  induction sorted generalizing sorted' with
  | nil =>
    cases sorted' with
    | nil => rfl
    | cons b rest' =>
      exact absurd ((mem_iff_of_filter_eq h b).2 List.mem_cons_self) List.not_mem_nil
  | cons a rest ih =>
    cases sorted' with
    | nil => exact absurd ((mem_iff_of_filter_eq h a).1 List.mem_cons_self) List.not_mem_nil
    | cons b rest' =>
      obtain ⟨ha, hrest⟩ := List.pairwise_cons.1 hs
      obtain ⟨hb, hrest'⟩ := List.pairwise_cons.1 hs'
      have hba : b.stage ≤ a.stage := by
        rcases List.mem_cons.1 ((mem_iff_of_filter_eq h a).1 List.mem_cons_self) with rfl | hmem
        · exact Stage.le_refl _
        · exact hb a hmem
      have hab : a.stage ≤ b.stage := by
        rcases List.mem_cons.1 ((mem_iff_of_filter_eq h b).2 List.mem_cons_self) with rfl | hmem
        · exact Stage.le_refl _
        · exact ha b hmem
      have hstage : b.stage = a.stage := Stage.le_antisymm hba hab
      have hfront := h a.stage
      rw [List.filter_cons_of_pos (by simp), List.filter_cons_of_pos (by simp [hstage])] at hfront
      obtain rfl : a = b := (List.cons.inj hfront).1
      have htails : ∀ stage, rest.filter (·.stage = stage) = rest'.filter (·.stage = stage) := by
        intro stage
        have hstage := h stage
        rw [List.filter_cons, List.filter_cons] at hstage
        split at hstage
        · exact (List.cons.inj hstage).2
        · exact hstage
      rw [ih hrest hrest' htails]

theorem unique (h : InStageOrder added sorted) (h' : InStageOrder added sorted') :
    sorted = sorted' :=
  eq_of_filter_eq h.stages h'.stages fun stage => (h.stable stage).trans (h'.stable stage).symm

theorem sortByStage (added : List Pass) : InStageOrder added (Pass.sortByStage added) := by
  have htrans : ∀ a b c : Pass, decide (a.stage ≤ b.stage) → decide (b.stage ≤ c.stage) →
      decide (a.stage ≤ c.stage) := by
    intro a b c hab hbc
    exact decide_eq_true (Stage.le_trans (of_decide_eq_true hab) (of_decide_eq_true hbc))
  have htotal : ∀ a b : Pass, decide (a.stage ≤ b.stage) || decide (b.stage ≤ a.stage) := by
    intro a b
    simpa using Stage.le_total a.stage b.stage
  have hperm : (Pass.sortByStage added).Perm added := List.mergeSort_perm _ _
  refine ⟨hperm, ?_, fun stage => ?_⟩
  · exact (List.pairwise_mergeSort htrans htotal added).imp of_decide_eq_true
  · -- The passes of one stage are in order as they are, so that the sort keeps them as a sublist.
    have hequal : (added.filter (·.stage = stage)).Pairwise
        fun a b => decide (a.stage ≤ b.stage) := by
      refine List.pairwise_of_forall_mem_list fun a ha b hb => decide_eq_true ?_
      rw [of_decide_eq_true (List.mem_filter.1 ha).2, of_decide_eq_true (List.mem_filter.1 hb).2]
      exact Stage.le_refl stage
    have hkept : (added.filter (·.stage = stage)).Sublist (Pass.sortByStage added) :=
      List.sublist_mergeSort htrans htotal hequal List.filter_sublist
    have hsub : (added.filter (·.stage = stage)).Sublist
        ((Pass.sortByStage added).filter (·.stage = stage)) := by
      simpa using hkept.filter (·.stage = stage)
    exact (hsub.eq_of_length (hperm.filter _).length_eq.symm).symm

theorem eq_sortByStage (h : InStageOrder added sorted) : sorted = Pass.sortByStage added :=
  h.unique (sortByStage added)

/-! ## Adding passes -/

/-- In a list in the order of the stages, what stands behind the passes up to a stage is of later
stages. -/
theorem not_le_of_mem_dropWhile (hs : sorted.Pairwise fun a b => a.stage ≤ b.stage) {stage : Stage}
    {q : Pass} (hq : q ∈ sorted.dropWhile fun a => a.stage ≤ stage) : ¬q.stage ≤ stage := by
  induction sorted with
  | nil => cases hq
  | cons a rest ih =>
    obtain ⟨ha, hrest⟩ := List.pairwise_cons.1 hs
    rw [List.dropWhile_cons] at hq
    split at hq
    · exact ih hrest hq
    · next hlater =>
      have hla : ¬a.stage ≤ stage := by simpa using hlater
      rcases List.mem_cons.1 hq with rfl | hmem
      · exact hla
      · exact fun hle => hla (Stage.le_trans (ha q hmem) hle)

/-- Passes are in order when another has been put between those that are not of later stages and
those that are. -/
theorem insert {pre post : List Pass} {pass : Pass} (h : InStageOrder added (pre ++ post))
    (hearlier : ∀ q ∈ pre, q.stage ≤ pass.stage) (hlater : ∀ q ∈ post, ¬q.stage ≤ pass.stage) :
    InStageOrder (added ++ [pass]) (pre ++ pass :: post) := by
  refine ⟨?_, ?_, fun stage => ?_⟩
  · calc (pre ++ pass :: post).Perm (pass :: (pre ++ post)) := List.perm_middle
      _ |>.Perm (pass :: added) := h.perm.cons pass
      _ |>.Perm (added ++ [pass]) := (List.perm_append_singleton pass added).symm
  · obtain ⟨hpre, hpost, hcross⟩ := List.pairwise_append.1 h.stages
    refine List.pairwise_append.2 ⟨hpre, List.pairwise_cons.2 ⟨fun q hq => ?_, hpost⟩, ?_⟩
    · exact (Stage.le_total _ _).resolve_right (hlater q hq)
    · intro a ha b hb
      rcases List.mem_cons.1 hb with rfl | hb
      · exact hearlier a ha
      · exact hcross a ha b hb
  · have hstable := h.stable stage
    rw [List.filter_append] at hstable
    rw [List.filter_append, List.filter_append, ← hstable, List.filter_cons]
    split
    · next hstage =>
      -- No pass of this stage stands behind the place where the new one is put.
      have hnone : post.filter (·.stage = stage) = [] := by
        refine List.filter_eq_nil_iff.2 fun q hq heq => hlater q hq ?_
        rw [of_decide_eq_true heq, of_decide_eq_true hstage]
        exact Stage.le_refl stage
      rw [hnone, List.append_nil, List.filter_cons, if_pos hstage, List.filter_nil]
    · next hstage => rw [List.filter_cons, if_neg hstage, List.filter_nil, List.append_nil]

theorem addPass {p : Pipeline} (h : InStageOrder added p.passes) (pass : Pass) :
    InStageOrder (added ++ [pass]) (p.addPass pass).passes := by
  refine insert ?_ (fun q hq => ?_) fun q hq => not_le_of_mem_dropWhile h.stages hq
  · rw [List.takeWhile_append_dropWhile]
    exact h
  · have hq : decide (q.stage ≤ pass.stage) = true :=
      List.mem_takeWhile_imp (p := fun q : Pass => decide (q.stage ≤ pass.stage)) hq
    exact of_decide_eq_true hq

end InStageOrder

namespace Pipeline

/-! ## Pipelines in use -/

/-- What is asked of a pipeline. -/
inductive Request where
  | addPass (pass : Pass)
  | run (m : Module)

/-- The passes that are added by requests, in order. -/
def Request.added (requests : List Request) : List Pass :=
  requests.filterMap fun
    | addPass pass => some pass
    | run _ => none

/-- A pipeline in use, with the dumps that have been tried so far. -/
structure Session where
  pipeline : Pipeline
  tried : List Dump := []

namespace Session

/-- What is left of a module by the next run. -/
def run (s : Session) (m : Module) : Run :=
  s.pipeline.runAfter s.tried m

/-- A run leaves its dumps behind, whether it succeeds or fails. -/
def serve (s : Session) : Request → Session
  | .addPass pass => { s with pipeline := s.pipeline.addPass pass }
  | .run m => { s with tried := s.tried ++ (s.run m).journal.dumps }

def serveAll (s : Session) (requests : List Request) : Session :=
  requests.foldl serve s

/-- The order in which a pipeline takes the passes that were added to it, and what is seen of it. -/
structure TakesInOrder (s : Session) (added : List Pass) : Prop where
  inStageOrder : InStageOrder added s.pipeline.passes
  passes_eq : s.pipeline.passes = Pass.sortByStage added
  passNames_eq : s.pipeline.passNames = (Pass.sortByStage added).map Pass.name
  /-- A run that succeeds has taken all passes in that order, and one that fails those up to the
  first that stops. -/
  run_cases : ∀ m,
    (∃ report, (s.run m).result = .ok report ∧
      Completed s.pipeline 0 (Pass.sortByStage added) m (s.run m) report) ∨
    ∃ e done pass rest reached, (s.run m).result = .error e ∧
      Pass.sortByStage added = done ++ pass :: rest ∧
      FailedAt s.pipeline 0 done pass reached m (s.run m) e

variable {s : Session} {added : List Pass}

theorem inStageOrder_serve (h : InStageOrder added s.pipeline.passes) (request : Request) :
    InStageOrder (added ++ Request.added [request]) (s.serve request).pipeline.passes := by
  cases request with
  | addPass pass => exact h.addPass pass
  | run m =>
    have hnone : added ++ Request.added [.run m] = added := List.append_nil added
    rw [hnone]
    exact h

theorem inStageOrder_serveAll (h : InStageOrder added s.pipeline.passes)
    (requests : List Request) :
    InStageOrder (added ++ Request.added requests) (s.serveAll requests).pipeline.passes := by
  induction requests generalizing s added with
  | nil =>
    have hnone : added ++ Request.added [] = added := List.append_nil added
    rw [hnone]
    exact h
  | cons request rest ih =>
    have hcons : Request.added (request :: rest) =
        Request.added [request] ++ Request.added rest := by
      unfold Request.added
      rw [← List.filterMap_append, List.singleton_append]
    rw [hcons, ← List.append_assoc]
    exact ih (inStageOrder_serve h request)

theorem takesInOrder (h : InStageOrder added s.pipeline.passes) : s.TakesInOrder added where
  inStageOrder := h
  passes_eq := h.eq_sortByStage
  passNames_eq := by rw [passNames, h.eq_sortByStage]
  run_cases m := by
    rw [← h.eq_sortByStage]
    exact s.pipeline.runFrom_cases s.tried 0 s.pipeline.passes m

end Session

/-- **Passes run in the order of a stable sort by stage**, of the passes as they were added,
whatever else has been asked of the pipeline in between. In the standard pipeline shape inference
and fusion have been added first. -/
theorem execution_order (registry : Registry) (options : Options) (diagnostics : Sink)
    (requests : List Request) :
    (Session.serveAll ⟨{ registry, options, diagnostics }, []⟩ requests).TakesInOrder
      (Request.added requests) ∧
    (Session.serveAll ⟨{ standard registry options with diagnostics }, []⟩ requests).TakesInOrder
      (ShapeInference.pass Relay.dialectName :: Fusion.pass Relay.dialectName ::
        Request.added requests) := by
  have hempty : InStageOrder [] ({ registry, options, diagnostics } : Pipeline).passes := .nil
  have hstandard : InStageOrder
      [ShapeInference.pass Relay.dialectName, Fusion.pass Relay.dialectName]
      ({ standard registry options with diagnostics } : Pipeline).passes :=
    (hempty.addPass _).addPass _
  have hfresh := Session.inStageOrder_serveAll (s := ⟨_, []⟩) hempty requests
  have hbuiltIn := Session.inStageOrder_serveAll (s := ⟨_, []⟩) hstandard requests
  exact ⟨Session.takesInOrder hfresh, Session.takesInOrder hbuiltIn⟩

end Pipeline

end TensorIR
